import IrcPlatform.Irc.HandlerLines

/-!
# Accounts

What registration is about, apart from the rest of a client record: the accepted
password, the names and the flag. `Account.next` is the
registration automaton; the dispatcher moves the sender's account by it and no
other account, and posts the welcome sequence exactly when it completes one.
-/

namespace IrcPlatform.Irc

open Std Relation

structure Account where
  passwordAccepted : Bool := false
  nickname : Bytes := []
  userReceived : Bool := false
  username : Bytes := []
  realname : Bytes := []
  hostname : Bytes
  registered : Bool := false
deriving DecidableEq

def Client.account (client : Client) : Account where
  passwordAccepted := client.passwordAccepted
  nickname := client.nickname
  userReceived := client.userReceived
  username := client.username
  realname := client.realname
  hostname := client.hostname
  registered := client.registered

theorem Client.account_of_identity {client other : Client}
    (same : other.identity = client.identity) : other.account = client.account := by
  have fields := congrArg Client.account same
  exact fields

namespace Account

/-- All three conditions of a registration. -/
def complete (account : Account) : Bool :=
  account.passwordAccepted && !account.nickname.isEmpty && account.userReceived

def tryComplete (account : Account) : Account :=
  { account with registered := account.registered || account.complete }

/-- The first parameter is the password of the server. -/
def givesPassword (password : Bytes) (message : Message) : Bool :=
  message.command == ascii "PASS" && message.params.head? == some password

/-- The user data of a USER command with four parameters and a valid username. -/
def userData (message : Message) : Option (Bytes × Bytes) :=
  if message.command = ascii "USER" then
    match message.params with
    | username :: _ :: _ :: realname :: _ =>
        if Server.badUsername username then none else some (username, realname)
    | _ => none
  else none

def acceptPassword (account : Account) : Account := { account with passwordAccepted := true }

def setNickname (account : Account) (nickname : Bytes) : Account :=
  { account with nickname := nickname }

def setUser (account : Account) (username realname : Bytes) : Account :=
  { account with username := username, realname := realname, userReceived := true }

/-- The account of the sender after one command, where `available` tells which
nicknames the server would grant it. -/
def next (password : Bytes) (available : Bytes → Bool) (message : Message)
    (account : Account) : Account :=
  if message.command = ascii "PASS" then
    if !account.registered && givesPassword password message then
      account.acceptPassword.tryComplete
    else account
  else if message.command = ascii "NICK" then
    match message.params with
    | [] => account
    | nickname :: _ =>
        if IrcUtil.isValidNickname nickname && available nickname then
          (account.setNickname nickname).tryComplete
        else account
  else
    match userData message with
    | none => account
    | some (username, realname) =>
        if account.registered || account.userReceived then account
        else (account.setUser username realname).tryComplete

section Equations

variable {password : Bytes} {available : Bytes → Bool} {message : Message} {account : Account}

theorem next_pass (command : message.command = ascii "PASS") :
    account.next password available message =
      if !account.registered && givesPassword password message then
        account.acceptPassword.tryComplete
      else account := by
  simp only [next, if_pos command]

theorem next_nick (command : message.command = ascii "NICK") :
    account.next password available message =
      match message.params with
      | [] => account
      | nickname :: _ =>
          if IrcUtil.isValidNickname nickname && available nickname then
            (account.setNickname nickname).tryComplete
          else account := by
  have notPass : message.command ≠ ascii "PASS" := by
    rw [command]
    decide
  simp only [next, if_neg notPass, if_pos command]

theorem next_user (notPass : message.command ≠ ascii "PASS")
    (notNick : message.command ≠ ascii "NICK") :
    account.next password available message =
      match userData message with
      | none => account
      | some (username, realname) =>
          if account.registered || account.userReceived then account
          else (account.setUser username realname).tryComplete := by
  simp only [next, if_neg notPass, if_neg notNick]

/-- Only three commands move an account. -/
theorem next_of_other (notPass : message.command ≠ ascii "PASS")
    (notNick : message.command ≠ ascii "NICK") (notUser : message.command ≠ ascii "USER") :
    account.next password available message = account := by
  rw [next_user notPass notNick]
  simp only [userData, if_neg notUser]

/-- PASS and USER do not move the account of a registered client. -/
theorem next_of_rejected (registered : account.registered = true)
    (notNick : message.command ≠ ascii "NICK") :
    account.next password available message = account := by
  by_cases command : message.command = ascii "PASS"
  · rw [next_pass command]
    simp [registered]
  · rw [next_user command notNick]
    split
    · rfl
    · simp [registered]

/-- A nickname is kept or replaced by a valid one. -/
theorem nickname_next : (account.next password available message).nickname = account.nickname ∨
    IrcUtil.isValidNickname (account.next password available message).nickname = true := by
  by_cases notNick : message.command ≠ ascii "NICK"
  · left
    simp only [next, if_neg notNick]
    split
    · split
      · rfl
      · rfl
    · split
      · rfl
      · split
        · rfl
        · rfl
  · rw [next_nick (not_not.mp notNick)]
    split
    · exact Or.inl rfl
    · split
      next accepted =>
        rw [Bool.and_eq_true] at accepted
        exact Or.inr accepted.1
      · exact Or.inl rfl

end Equations

end Account

theorem Client.account_tryCompleteRegistration (client : Client) :
    client.tryCompleteRegistration.2.account = client.account.tryComplete := by
  simp only [Client.tryCompleteRegistration, Account.tryComplete, Account.complete]
  split
  next registered => simp [Client.account, registered]
  next unregistered =>
    split
    next ready => simp_all [Client.account, Client.hasNickname]
    next notReady => simp_all [Client.account, Client.hasNickname]

namespace Server

/-- The five messages of `sendWelcomeSequence`. -/
def welcomePostings (server : Server) (client : Client) : List Posting :=
  [ ⟨client.fd, Reply.numeric server.serverName client Numeric.rplWelcome
      (ascii ":Welcome to the Internet Relay Network " ++ Reply.clientPrefix client)⟩,
    ⟨client.fd, Reply.numeric server.serverName client Numeric.rplYourHost
      (ascii ":Your host is " ++ server.serverName ++ ascii ", running version 1.0")⟩,
    ⟨client.fd, Reply.numeric server.serverName client Numeric.rplCreated
      (ascii ":This server was created " ++ server.serverStartTime)⟩,
    ⟨client.fd, Reply.numeric server.serverName client Numeric.rplMyInfo
      (server.serverName ++ ascii " 1.0 - itkol")⟩,
    ⟨client.fd, Reply.numeric server.serverName client Numeric.errNoMotd
      (ascii ":MOTD File is missing")⟩ ]

theorem posts_sendWelcomeSequence (server : Server) (client : Client) :
    server.Posts (server.welcomePostings client) (server.sendWelcomeSequence client) :=
  (((((Posts.refl server).queue _ _).queue _ _).queue _ _).queue _ _).queue _ _

variable {server : Server} {fd : Int} {client : Client}

theorem posts_tryRegisterClient (found : server.findClientByFd fd = some client) :
    server.Posts
      (if client.tryCompleteRegistration.1 then
        server.welcomePostings client.tryCompleteRegistration.2 else [])
      (server.tryRegisterClient fd) := by
  have buffers : client.tryCompleteRegistration.2.sendBuffer = client.sendBuffer := by
    simp only [Client.tryCompleteRegistration]
    split
    · rfl
    · split
      · rfl
      · rfl
  have written : (server.updateClient fd fun _ => client.tryCompleteRegistration.2).mail =
      server.mail := by
    apply mail_updateClient
    intro stored lookup
    rw [found, Option.some.injEq] at lookup
    rw [← lookup, buffers]
  simp only [tryRegisterClient, found]
  split
  · have welcomed := posts_sendWelcomeSequence
      (server.updateClient fd fun _ => client.tryCompleteRegistration.2)
      client.tryCompleteRegistration.2
    simp only [Posts, written] at welcomed ⊢
    exact welcomed
  · exact (Posts.refl server).of_mail_eq written

theorem identity_sendWelcomeSequence (server : Server) (client : Client) :
    SameRecords server (server.sendWelcomeSequence client) := by
  have first := SameRecords.queueToClient server client.fd
  simp only [sendWelcomeSequence]
  refine (first _).trans ((SameRecords.queueToClient _ _ _).trans
    ((SameRecords.queueToClient _ _ _).trans ((SameRecords.queueToClient _ _ _).trans
      (SameRecords.queueToClient _ _ _))))

/-- The record after an attempt to register. -/
theorem find_tryRegisterClient (found : server.findClientByFd fd = some client) :
    ∃ record, (server.tryRegisterClient fd).findClientByFd fd = some record ∧
      record.identity = client.tryCompleteRegistration.2.identity := by
  have core := core_tryRegisterClient found
  have stored : (server.tryRegisterClient fd).core.clients fd =
      some client.tryCompleteRegistration.2.withoutBuffers := by
    rw [core]
    simp
  rcases exists_find_of_core_clients _ fd stored with ⟨record, lookup, same⟩
  refine ⟨record, lookup, ?_⟩
  have identity := congrArg Client.identity same
  exact identity

/-! ## The cases of the dispatcher -/

inductive DispatchCase (server : Server) (fd : Int) (client : Client) (message : Message) :
    Server → Prop where
  | unknown (absent : ∀ entry ∈ commandTable, entry.name ≠ message.command)
      (registered : client.registered = true) :
      DispatchCase server fd client message
        (server.queueToClient fd (Reply.numeric server.serverName client
          Numeric.errUnknownCommand (message.command ++ ascii " :Unknown command")))
  | ignored (absent : ∀ entry ∈ commandTable, entry.name ≠ message.command)
      (unregistered : client.registered = false) : DispatchCase server fd client message server
  | refused {entry : CommandEntry} (listed : entry ∈ commandTable)
      (named : entry.name = message.command) (required : entry.requiresRegistration = true)
      (unregistered : client.registered = false) :
      DispatchCase server fd client message
        (server.queueToClient fd (Reply.numeric server.serverName client
          Numeric.errNotRegistered (ascii ":You have not registered")))
  | rejected {entry : CommandEntry} (listed : entry ∈ commandTable)
      (named : entry.name = message.command) (rejects : entry.rejectsWhenRegistered = true)
      (registered : client.registered = true) :
      DispatchCase server fd client message
        (server.queueToClient fd (Reply.numeric server.serverName client
          Numeric.errAlreadyRegistred (ascii ":Unauthorized command (already registered)")))
  | handled {entry : CommandEntry} (listed : entry ∈ commandTable)
      (named : entry.name = message.command)
      (admitted : entry.requiresRegistration = true → client.registered = true)
      (fresh : entry.rejectsWhenRegistered = true → client.registered = false) :
      DispatchCase server fd client message (entry.handler server fd message)

theorem dispatchCommand_cases (found : server.findClientByFd fd = some client)
    (message : Message) :
    DispatchCase server fd client message (server.dispatchCommand fd message) := by
  simp only [dispatchCommand, found]
  cases looked : commandTable.find? (·.name == message.command) with
  | none =>
      have absent : ∀ entry ∈ commandTable, entry.name ≠ message.command := by
        intro entry listed
        simpa using List.find?_eq_none.mp looked entry listed
      cases registered : client.registered with
      | true => exact DispatchCase.unknown absent registered
      | false => exact DispatchCase.ignored absent registered
  | some entry =>
      have listed := List.mem_of_find?_eq_some looked
      have named : entry.name = message.command := by
        simpa using List.find?_some looked
      simp only
      split
      next refused =>
        rw [Bool.and_eq_true, Bool.not_eq_true'] at refused
        exact DispatchCase.refused listed named refused.2 refused.1
      next admitted =>
        split
        next rejected =>
          rw [Bool.and_eq_true] at rejected
          exact DispatchCase.rejected listed named rejected.2 rejected.1
        next fresh =>
          apply DispatchCase.handled listed named
          · intro required
            simpa [required] using admitted
          · intro rejects
            simpa [rejects] using fresh

/-- A command of a registered client goes to its handler. -/
theorem dispatchCommand_registered (found : server.findClientByFd fd = some client)
    (registered : client.registered = true) {message : Message} {entry : CommandEntry}
    (looked : commandTable.find? (·.name == message.command) = some entry)
    (taken : entry.rejectsWhenRegistered = false) :
    server.dispatchCommand fd message = entry.handler server fd message := by
  simp only [dispatchCommand, found, looked, registered, taken, Bool.not_true, Bool.false_and,
    Bool.and_false, Bool.false_eq_true, if_false]

/-! ## The account of the sender -/

/-- The sender is still there, with the account that the automaton gives. -/
def HasAccount (server : Server) (fd : Int) (account : Account) : Prop :=
  ∃ record, server.findClientByFd fd = some record ∧ record.account = account

theorem hasAccount_of_same {after : Server} (same : SameRecords server after)
    (found : server.findClientByFd fd = some client) : after.HasAccount fd client.account := by
  have identity := same.identity fd
  rw [found] at identity
  rcases Option.map_eq_some_iff.mp identity with ⟨record, lookup, equal⟩
  exact ⟨record, lookup, Client.account_of_identity equal⟩

theorem hasAccount_tryRegisterClient (found : server.findClientByFd fd = some client) :
    (server.tryRegisterClient fd).HasAccount fd client.account.tryComplete := by
  rcases find_tryRegisterClient found with ⟨record, lookup, same⟩
  refine ⟨record, lookup, ?_⟩
  rw [Client.account_of_identity same, Client.account_tryCompleteRegistration]

theorem handlePass_account (found : server.findClientByFd fd = some client) {message : Message}
    (command : message.command = ascii "PASS") (unregistered : client.registered = false)
    (available : Bytes → Bool) :
    (server.handlePass fd message).HasAccount fd
      (client.account.next server.password available message) := by
  have closed : client.account.registered = false := unregistered
  rw [Account.next_pass command]
  simp only [handlePass, found, closed, Bool.not_false, Bool.true_and]
  split
  next given =>
    have wrong : Account.givesPassword server.password message = false := by
      simp [Account.givesPassword, given]
    rw [wrong]
    exact hasAccount_of_same (Tells.refl.requireParams found _ _ :
      Tells server fd client message _).same found
  next password others given =>
    by_cases same : password = server.password
    · have right : Account.givesPassword server.password message = true := by
        simp [Account.givesPassword, given, command, same]
      rw [right, if_neg (by simp [same]), if_pos rfl]
      exact hasAccount_tryRegisterClient (findClientByFd_updateClient (·.acceptPassword) found)
    · have wrong : Account.givesPassword server.password message = false := by
        simp [Account.givesPassword, given, same]
      rw [wrong, if_pos (by simp [same]), if_neg (by simp)]
      exact hasAccount_of_same (SameRecords.queueToClient server fd _) found

theorem find_renameClient (found : server.findClientByFd fd = some client) (nickname : Bytes) :
    (server.renameClient fd client nickname).findClientByFd fd =
      some (client.setNickname nickname) := by
  simp only [renameClient]
  apply findClientByFd_updateClient (·.setNickname nickname)
  split
  · exact found
  · exact found

theorem handleNick_account (found : server.findClientByFd fd = some client) {message : Message}
    (command : message.command = ascii "NICK") :
    (server.handleNick fd message).HasAccount fd (client.account.next server.password
      (fun nickname => server.isNicknameAvailable nickname fd) message) := by
  rw [Account.next_nick command]
  simp only [handleNick, found]
  cases given : message.params with
  | nil => exact hasAccount_of_same (SameRecords.queueToClient server fd _) found
  | cons nickname others =>
      dsimp only
      cases valid : IrcUtil.isValidNickname nickname with
      | false => exact hasAccount_of_same (SameRecords.queueToClient server fd _) found
      | true =>
          cases free : server.isNicknameAvailable nickname fd with
          | false => exact hasAccount_of_same (SameRecords.queueToClient server fd _) found
          | true =>
              have renamed := find_renameClient found nickname
              simp only [Bool.not_true, Bool.false_eq_true, if_false, Bool.and_self, if_true]
              cases registered : client.registered with
              | true =>
                  have account : (client.setNickname nickname).account =
                      (client.account.setNickname nickname).tryComplete := by
                    simp [Account.tryComplete, Account.setNickname, Client.account,
                      Client.setNickname, registered]
                  rw [if_pos rfl, ← account]
                  apply hasAccount_of_same _ renamed
                  exact (SameRecords.queueToClient _ _ _).trans (SameRecords.queueToAll _ _ _)
              | false => exact hasAccount_tryRegisterClient renamed

theorem handleUser_account (found : server.findClientByFd fd = some client) {message : Message}
    (command : message.command = ascii "USER") (unregistered : client.registered = false)
    (available : Bytes → Bool) :
    (server.handleUser fd message).HasAccount fd
      (client.account.next server.password available message) := by
  have notPass : message.command ≠ ascii "PASS" := by
    rw [command]
    decide
  have notNick : message.command ≠ ascii "NICK" := by
    rw [command]
    decide
  have closed : client.account.registered = false := unregistered
  rw [Account.next_user notPass notNick]
  simp only [handleUser, found, closed, Bool.false_or, Account.userData, if_pos command]
  cases received : client.userReceived with
  | true =>
      have receivedToo : client.account.userReceived = true := received
      have kept := hasAccount_of_same (SameRecords.queueToClient server fd
        (Reply.numeric server.serverName client Numeric.errAlreadyRegistred
          (ascii ":Unauthorized command (already registered)"))) found
      simp only [if_true, receivedToo]
      split
      · exact kept
      · exact kept
  | false =>
      have receivedToo : client.account.userReceived = false := received
      have kept := hasAccount_of_same (Tells.refl.requireParams found message 4 :
        Tells server fd client message _).same found
      simp only [Bool.false_eq_true, if_false, receivedToo]
      rcases message.params with _ | ⟨username, _ | ⟨mode, _ | ⟨unused, _ | ⟨realname, rest⟩⟩⟩⟩
      · exact kept
      · exact kept
      · exact kept
      · exact kept
      · dsimp only
        cases bad : badUsername username with
        | true => exact hasAccount_of_same (SameRecords.queueToClient server fd _) found
        | false =>
            exact hasAccount_tryRegisterClient
              (findClientByFd_updateClient (·.setUser username realname) found)

/-! ## One dispatched command -/

/-- What the dispatcher did: one of the three registration commands ran, or the command
posted its lines and left every account alone. -/
inductive CommandCase (server : Server) (fd : Int) (client : Client) (message : Message) :
    Server → Prop where
  | told {after : Server} (tells : Tells server fd client message after)
      (steady : ∀ available,
        client.account.next server.password available message = client.account) :
      CommandCase server fd client message after
  | pass (command : message.command = ascii "PASS") (unregistered : client.registered = false) :
      CommandCase server fd client message (server.handlePass fd message)
  | nick (command : message.command = ascii "NICK") :
      CommandCase server fd client message (server.handleNick fd message)
  | user (command : message.command = ascii "USER") (unregistered : client.registered = false) :
      CommandCase server fd client message (server.handleUser fd message)

theorem CommandCase.of_other {after : Server} {message : Message} {name : Bytes}
    (named : name = message.command)
    (other : name ≠ ascii "PASS" ∧ name ≠ ascii "NICK" ∧ name ≠ ascii "USER")
    (tells : Tells server fd client message after) :
    CommandCase server fd client message after := by
  subst named
  exact CommandCase.told tells fun _ => Account.next_of_other other.1 other.2.1 other.2.2

theorem commandCase_of_handler (consistent : server.core.Consistent)
    (found : server.findClientByFd fd = some client) {message : Message} {entry : CommandEntry}
    (listed : entry ∈ commandTable) (named : entry.name = message.command)
    (admitted : entry.requiresRegistration = true → client.registered = true)
    (fresh : entry.rejectsWhenRegistered = true → client.registered = false) :
    CommandCase server fd client message (entry.handler server fd message) := by
  simp only [commandTable, List.mem_cons, List.not_mem_nil, or_false] at listed
  rcases listed with
    rfl | rfl | rfl | rfl | rfl | rfl | rfl | rfl | rfl | rfl | rfl | rfl | rfl | rfl
  · exact CommandCase.pass named.symm (fresh rfl)
  · exact CommandCase.nick named.symm
  · exact CommandCase.user named.symm (fresh rfl)
  · exact CommandCase.of_other named (by decide) (handleCap_tells found message)
  · exact CommandCase.of_other named (by decide) (handlePing_tells found message)
  · exact CommandCase.of_other named (by decide) Tells.refl
  · exact CommandCase.of_other named (by decide) (handleQuit_tells server fd client message)
  · exact CommandCase.of_other named (by decide)
      (handleJoin_tells consistent found (admitted rfl) message)
  · exact CommandCase.of_other named (by decide)
      (handlePrivmsg_tells consistent found (admitted rfl) named.symm)
  · exact CommandCase.of_other named (by decide)
      (handleKick_tells consistent found (admitted rfl) message)
  · exact CommandCase.of_other named (by decide)
      (handleInvite_tells found (admitted rfl) named.symm)
  · exact CommandCase.of_other named (by decide)
      (handleTopic_tells consistent found (admitted rfl) message)
  · exact CommandCase.of_other named (by decide)
      (handleMode_tells consistent found (admitted rfl) message)
  · exact CommandCase.of_other named (by decide)
      (handlePart_tells consistent found (admitted rfl) message)

/-- The names of the table that registration is about. -/
theorem name_of_listed {entry : CommandEntry} (listed : entry ∈ commandTable) :
    (entry.requiresRegistration = true → entry.name ≠ ascii "PASS" ∧
      entry.name ≠ ascii "NICK" ∧ entry.name ≠ ascii "USER") ∧
    (entry.rejectsWhenRegistered = true → entry.name ≠ ascii "NICK") := by
  simp only [commandTable, List.mem_cons, List.not_mem_nil, or_false] at listed
  rcases listed with
    rfl | rfl | rfl | rfl | rfl | rfl | rfl | rfl | rfl | rfl | rfl | rfl | rfl | rfl <;>
  decide

theorem not_registration_of_absent {message : Message}
    (absent : ∀ entry ∈ commandTable, entry.name ≠ message.command) :
    message.command ≠ ascii "PASS" ∧ message.command ≠ ascii "NICK" ∧
      message.command ≠ ascii "USER" := by
  simp only [commandTable, List.forall_mem_cons] at absent
  rcases absent with ⟨notPass, notNick, notUser, _⟩
  exact ⟨Ne.symm notPass, Ne.symm notNick, Ne.symm notUser⟩

theorem dispatchCommand_case (consistent : server.core.Consistent)
    (found : server.findClientByFd fd = some client) (message : Message) :
    CommandCase server fd client message (server.dispatchCommand fd message) := by
  have happened := dispatchCommand_cases found message
  generalize server.dispatchCommand fd message = after at happened
  cases happened with
  | unknown absent _ =>
      exact CommandCase.of_other rfl (not_registration_of_absent absent)
        (Tells.refl.numeric rfl rfl (by decide) _)
  | ignored absent _ =>
      exact CommandCase.of_other rfl (not_registration_of_absent absent) Tells.refl
  | refused listed named required _ =>
      exact CommandCase.of_other named ((name_of_listed listed).1 required)
        (Tells.refl.numeric rfl rfl (by decide) _)
  | rejected listed named rejects registered =>
      apply CommandCase.told (Tells.refl.numeric rfl rfl (by decide) _)
      intro available
      exact Account.next_of_rejected registered (named ▸ (name_of_listed listed).2 rejects)
  | handled listed named admitted fresh =>
      exact commandCase_of_handler consistent found listed named admitted fresh

/-- The sender's account moves by the automaton. -/
theorem dispatchCommand_account (consistent : server.core.Consistent)
    (found : server.findClientByFd fd = some client) (message : Message) :
    (server.dispatchCommand fd message).HasAccount fd (client.account.next server.password
      (fun nickname => server.isNicknameAvailable nickname fd) message) := by
  have happened := dispatchCommand_case consistent found message
  generalize server.dispatchCommand fd message = after at happened
  cases happened with
  | told tells steady =>
      rw [steady]
      exact hasAccount_of_same tells.same found
  | pass command unregistered => exact handlePass_account found command unregistered _
  | nick command => exact handleNick_account found command
  | user command unregistered => exact handleUser_account found command unregistered _

end Server

end IrcPlatform.Irc
