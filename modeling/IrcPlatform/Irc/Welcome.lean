import IrcPlatform.Irc.LineShape
import IrcPlatform.Irc.Transcript
import IrcPlatform.Library.Digits

/-!
# The law of registration

Registration is completed by whichever of PASS, NICK and USER comes last. This
file relates the account of a connection to the commands it sent since it was
accepted, and shows that the welcome sequence is queued exactly once, by the
dispatch that completes the registration.
-/

namespace IrcPlatform.Irc

open Std

/-! ## Recognising a welcome -/

def welcomeHead (code : Nat) : Bytes :=
  ascii ":ircserv.local " ++ (Reply.threeDigits code ++ ascii " ")

/-- The code of a line of the welcome sequence. -/
def welcomeCode (line : Bytes) : Option Nat :=
  welcomeCodes.find? fun code => (welcomeHead code).isPrefixOf line

/-- The welcome codes among the lines queued to a descriptor. -/
def welcomes (fd : Int) (events : List HistoryEvent) : List Nat :=
  (queuedLines fd events).filterMap welcomeCode

theorem welcomes_append (fd : Int) (first second : List HistoryEvent) :
    welcomes fd (first ++ second) = welcomes fd first ++ welcomes fd second := by
  simp only [welcomes, queuedLines_append, List.filterMap_append]

theorem welcomeCode_eq_none {line : Bytes}
    (other : ∀ code ∈ welcomeCodes, ¬welcomeHead code <+: line) : welcomeCode line = none := by
  apply List.find?_eq_none.mpr
  intro code listed
  rw [List.isPrefixOf_iff_prefix]
  exact other code listed

/-- A line without the name of the server is no welcome. -/
theorem welcomeCode_of_head {line : Bytes} (other : ¬ascii ":ircserv.local " <+: line) :
    welcomeCode line = none := by
  apply welcomeCode_eq_none
  intro code _ head
  exact other ((List.prefix_append _ _).trans head)

/-- A line of a client begins with a name that ends at an exclamation mark. -/
theorem command_not_of_server {client : Client}
    (valid : client.nickname ≠ [] → IrcUtil.isValidNickname client.nickname = true)
    (word parameters : Bytes) :
    ¬ascii ":ircserv.local " <+: Reply.command (Reply.clientPrefix client) word parameters := by
  intro head
  have nonempty : Reply.clientPrefix client ≠ [] := by
    rcases clientPrefix_head client with ⟨rest, same⟩
    rw [← same]
    simp
  have given : (Reply.clientPrefix client).isEmpty = false := by simpa using nonempty
  simp only [Reply.command, given, Bool.not_false, Bool.true_and] at head
  split at head
  · exact absurd head (by decide)
  · split at head
    · exact absurd head (by decide)
    · have shorter : ascii ":" ++ (Reply.targetName client ++ [byte '!']) <+:
          ascii ":" ++ Reply.clientPrefix client := by
        rw [List.prefix_append_right_inj]
        exact clientPrefix_head client
      simp only [Bool.false_eq_true, if_false, List.append_assoc] at head
      rw [← List.append_assoc (ascii ":")] at head
      rcases List.prefix_or_prefix_of_prefix (shorter.trans (List.prefix_append _ _)) head with
        inside | outside
      · have marked : byte '!' ∈ ascii ":ircserv.local " := inside.subset (by simp)
        exact absurd marked (by decide)
      · have spaced := outside.subset (show byte ' ' ∈ ascii ":ircserv.local " by decide)
        rcases List.mem_append.mp spaced with colon | spaced
        · exact absurd (List.mem_singleton.mp colon) (by decide)
        · rcases List.mem_append.mp spaced with name | mark
          · exact absurd rfl ((targetName_bytes valid).2 _ name).1
          · exact absurd (List.mem_singleton.mp mark) (by decide)

theorem welcomeCode_of_command {client : Client}
    (valid : client.nickname ≠ [] → IrcUtil.isValidNickname client.nickname = true)
    (word parameters : Bytes) :
    welcomeCode (Reply.command (Reply.clientPrefix client) word parameters) = none :=
  welcomeCode_of_head (command_not_of_server valid word parameters)

theorem digits_head : ∀ code ∈ welcomeCodes, (Reply.threeDigits code).head? = some (byte '0') ∨
    (Reply.threeDigits code).head? = some (byte '4') := by
  decide +kernel

theorem welcomeCode_of_answer {word : Bytes} (listed : word ∈ [ascii "CAP", ascii "PONG"])
    (parameters : Bytes) :
    welcomeCode (Reply.command (Reply.serverPrefix (ascii "ircserv.local")) word parameters) =
      none := by
  have safeServer : IrcUtil.isSafeToken (ascii "ircserv.local") = true := by decide
  have words : ∀ word ∈ [ascii "CAP", ascii "PONG"], IrcUtil.isSafeToken word = true ∧
      (word.head? = some (byte 'C') ∨ word.head? = some (byte 'P')) := by decide
  rcases words word listed with ⟨safeWord, initial⟩
  have start : ascii ":ircserv.local " = ascii ":" ++ ascii "ircserv.local" ++ ascii " " := rfl
  apply welcomeCode_eq_none
  rintro code codeListed ⟨rest, same⟩
  rw [Reply.serverPrefix, Reply.command_eq safeServer safeWord, welcomeHead, start] at same
  simp only [List.append_assoc, List.append_cancel_left_eq] at same
  -- A digit is no letter.
  have first := congrArg List.head? same
  rw [List.head?_append, List.head?_append] at first
  rcases digits_head code codeListed with zero | four
  · rcases initial with c | p
    · simp [zero, c, byte] at first
    · simp [zero, p, byte] at first
  · rcases initial with c | p
    · simp [four, c, byte] at first
    · simp [four, p, byte] at first

theorem digits_apart : ∀ code ∈ welcomeCodes ++ replyCodes, ∀ other ∈ welcomeCodes ++ replyCodes,
    Reply.threeDigits code = Reply.threeDigits other → code = other := by
  decide +kernel

theorem digits_noSpace (code : Nat) : byte ' ' ∉ Reply.threeDigits code := by
  intro listed
  rw [Reply.threeDigits, List.mem_append] at listed
  rcases listed with zero | digit
  · exact absurd (List.eq_of_mem_replicate zero) (by decide)
  · exact absurd (isAsciiDigit_of_mem_decimal digit) (by decide)

/-- A numeric reply is recognised by its code. -/
theorem welcomeCode_of_numeric {target : Client} {code : Nat}
    (valid : target.nickname ≠ [] → IrcUtil.isValidNickname target.nickname = true)
    (listed : code ∈ welcomeCodes ++ replyCodes) (parameters : Bytes) :
    welcomeCode (Reply.numeric (ascii "ircserv.local") target code parameters) =
      if code ∈ welcomeCodes then some code else none := by
  have safeServer : IrcUtil.isSafeToken (ascii "ircserv.local") = true := by decide
  rcases Reply.code_bytes code listed with ⟨small, _⟩
  have shape := Reply.numeric_eq safeServer (safe_targetName_of_valid valid) small parameters
  have recognised : ∀ other ∈ welcomeCodes,
      (welcomeHead other <+: Reply.numeric (ascii "ircserv.local") target code parameters ↔
        other = code) := by
    intro other otherListed
    have start : ascii ":ircserv.local " = ascii ":" ++ ascii "ircserv.local" ++ ascii " " := rfl
    rw [shape, welcomeHead, start]
    simp only [List.append_assoc, List.prefix_append_right_inj]
    constructor
    · intro head
      apply digits_apart other (List.mem_append_left _ otherListed) code listed
      apply eq_of_terminated (digits_noSpace other) (digits_noSpace code) head
      rw [← List.append_assoc]
      exact List.prefix_append _ _
    · rintro rfl
      rw [← List.append_assoc]
      exact List.prefix_append _ _
  cases result : welcomeCode (Reply.numeric (ascii "ircserv.local") target code parameters) with
  | none =>
      split
      next welcome =>
        have missed := List.find?_eq_none.mp result code welcome
        rw [List.isPrefixOf_iff_prefix] at missed
        exact absurd ((recognised code welcome).mpr rfl) missed
      · rfl
  | some other =>
      have otherListed := List.mem_of_find?_eq_some result
      have head := List.find?_some result
      rw [List.isPrefixOf_iff_prefix, recognised other otherListed] at head
      subst head
      rw [if_pos otherListed]

theorem reply_notWelcome : ∀ code ∈ replyCodes, code ∉ welcomeCodes := by
  decide

namespace Server

variable {server : Server} {fd : Int} {client : Client}

theorem nickname_valid (reached : stepSystem.Reachable server)
    (found : server.findClientByFd fd = some client) (given : client.nickname ≠ []) :
    IrcUtil.isValidNickname client.nickname = true :=
  (reachable_nicknameIndex reached).nickname_valid fd client found given

theorem welcomeCode_of_commandLine {message : Message} {posting : Posting}
    (line : CommandLine server fd client message posting)
    (serverName : server.serverName = ascii "ircserv.local")
    (valid : client.nickname ≠ [] → IrcUtil.isValidNickname client.nickname = true) :
    welcomeCode posting.message = none := by
  cases line with
  | numeric listed parameters =>
      rw [serverName, welcomeCode_of_numeric valid (List.mem_append_right _ listed),
        if_neg (reply_notWelcome _ listed)]
  | answer listed parameters =>
      rw [serverName]
      exact welcomeCode_of_answer listed parameters
  | notice _ _ _ _ parameters => exact welcomeCode_of_command valid _ parameters
  | privmsg _ _ _ _ _ _ => exact welcomeCode_of_command valid (ascii "PRIVMSG") _
  | invite _ _ _ _ _ _ => exact welcomeCode_of_command valid (ascii "INVITE") _

/-- The welcome sequence is recognised as such, by its receiver only. -/
theorem welcomes_of_welcome {completed : Client}
    (serverName : server.serverName = ascii "ircserv.local")
    (valid : completed.nickname ≠ [] → IrcUtil.isValidNickname completed.nickname = true)
    (fd : Int) : (addressed fd (server.welcomePostings completed)).filterMap welcomeCode =
      if completed.fd = fd then welcomeCodes else [] := by
  have recognised : ∀ code ∈ welcomeCodes, ∀ parameters,
      welcomeCode (Reply.numeric (ascii "ircserv.local") completed code parameters) =
        some code := by
    intro code listed parameters
    rw [welcomeCode_of_numeric valid (List.mem_append_left _ listed), if_pos listed]
  simp only [addressed, welcomePostings, serverName]
  split
  next own =>
    simp only [own, decide_true, List.filter_cons_of_pos, List.filter_nil, List.map_cons,
      List.map_nil, List.filterMap_cons, List.filterMap_nil]
    rw [recognised _ (by decide), recognised _ (by decide), recognised _ (by decide),
      recognised _ (by decide), recognised _ (by decide)]
    rfl
  next elsewhere => simp [elsewhere]

/-- What a step adds to the welcomes of a connection that stays open. -/
structure WelcomeStep (fd : Int) (before after : Server) (client next : Client) : Prop where
  added : ∃ events, after.history = before.history ++ events ∧ .accepted fd ∉ events ∧
    welcomes fd events = if next.registered && !client.registered then welcomeCodes else []

theorem welcomes_eq_nil {events : List HistoryEvent}
    (none : ∀ line ∈ queuedLines fd events, welcomeCode line = none) :
    welcomes fd events = [] :=
  List.filterMap_eq_nil_iff.mpr none

theorem registered_same {client next : Client} (same : next.registered = client.registered) :
    (next.registered && !client.registered) = false := by
  rw [same, Bool.and_not_self]

/-- The welcomes among the postings of a command. -/
theorem welcomes_dispatchCommand (reached : stepSystem.Reachable server) {other : Int}
    {sender : Client} {message : Message} (foundSender : server.findClientByFd other = some sender)
    {start : Server} (clients : ∀ fd, start.findClientByFd fd = server.findClientByFd fd)
    (sameCore : start.core = server.core) (serverName : start.serverName = server.serverName)
    (found : server.findClientByFd fd = some client) {next : Client}
    (foundNext : (start.dispatchCommand other message).findClientByFd fd = some next)
    (names : ∀ record, (start.dispatchCommand other message).findClientByFd other =
      some record → record.nickname ≠ [] → IrcUtil.isValidNickname record.nickname = true) :
    WelcomeStep fd start (start.dispatchCommand other message) client next := by
  have consistent := step_reachable_consistent reached
  have foundStart := (clients other).trans foundSender
  have ownFd : sender.fd = other := consistent.client_fd other sender.withoutBuffers
    (core_clients_of_find server other foundSender)
  have name := serverName.trans (step_reachable_serverName reached)
  have live : (start.mail.buffers fd).isSome = true := by
    simp [mail, clients, found]
  have steadyOther : fd ≠ other → next.registered = client.registered := by
    intro distinct
    have same := dispatchCommand_others (sameCore ▸ consistent) other message fd distinct
    rw [foundNext, clients, found, Option.map_some, Option.map_some, Option.some.injEq] at same
    exact Client.registered_of_identity same
  have mail := dispatchCommand_mail (sameCore ▸ consistent) foundStart message
  generalize start.dispatchCommand other message = after at mail foundNext names
  cases mail with
  | lines posts all steady =>
      refine ⟨_, posts.history, ?_, ?_⟩
      · intro listed
        rcases Mail.mem_entries _ listed with ⟨posting, _, appended, same⟩
        simp at same
      · have same : next.registered = client.registered := by
          by_cases own : fd = other
          · subst own
            rw [found, Option.some.injEq] at foundSender
            rw [foundSender]
            exact steady next foundNext
          · exact steadyOther own
        rw [registered_same same, if_neg (by simp)]
        apply welcomes_eq_nil
        intro line listed
        rcases List.mem_filterMap.mp listed with ⟨event, eventListed, result⟩
        rcases Mail.mem_entries _ eventListed with ⟨posting, postingListed, appended, rfl⟩
        simp only [HistoryEvent.queuedTo, Option.ite_none_right_eq_some,
          Option.some.injEq] at result
        rcases result with ⟨rfl, rfl⟩
        exact welcomeCode_of_commandLine (all posting postingListed) name
          (nickname_valid reached foundSender)
  | @welcome completed posts own unregistered registered foundAfter =>
      rcases foundAfter with ⟨record, foundRecord, identity⟩
      have sameNickname : record.nickname = completed.nickname :=
        Client.nickname_of_identity identity
      have valid : completed.nickname ≠ [] →
          IrcUtil.isValidNickname completed.nickname = true :=
        sameNickname ▸ names record foundRecord
      have receiver : completed.fd = other := own.trans ownFd
      refine ⟨_, posts.history, ?_, ?_⟩
      · intro listed
        rcases Mail.mem_entries _ listed with ⟨posting, _, appended, same⟩
        simp at same
      · rw [welcomes, queuedLines, Mail.queuedTo_entries _ _ live,
          welcomes_of_welcome name valid, receiver]
        by_cases here : fd = other
        · subst here
          rw [found, Option.some.injEq] at foundSender
          rw [foundNext, Option.some.injEq] at foundRecord
          have flag : next.registered = true := by
            rw [foundRecord, Client.registered_of_identity identity, registered]
          rw [foundSender, unregistered, flag, if_pos rfl]
          rfl
        · rw [if_neg (Ne.symm here), registered_same (steadyOther here), if_neg (by simp)]

theorem welcomes_command (reached : stepSystem.Reachable server) {other : Int}
    {message : Message} (found : server.findClientByFd fd = some client) {next : Client}
    (foundNext : (server.advance (.command other message)).findClientByFd fd = some next) :
    WelcomeStep fd server (server.advance (.command other message)) client next := by
  have after : stepSystem.Reachable (server.advance (.command other message)) :=
    (leads_advance (Machine.Leads.refl server) (.command other message) rfl).reachable reached
  generalize recorded : server.record (.dispatched other
    (server.pendingDisconnects.contains other)) = start
  have dispatched : server.advance (.command other message) =
      start.dispatchCommand other message := by
    rw [← recorded]
    rfl
  have history : start.history = server.history ++
      [.dispatched other (server.pendingDisconnects.contains other)] := by
    rw [← recorded]
    rfl
  rw [dispatched] at foundNext after ⊢
  -- The entry of the dispatch itself is no line.
  have extend : WelcomeStep fd start (start.dispatchCommand other message) client next →
      WelcomeStep fd server (start.dispatchCommand other message) client next := by
    rintro ⟨events, same, quiet, codes⟩
    refine ⟨[.dispatched other (server.pendingDisconnects.contains other)] ++ events, ?_, ?_, ?_⟩
    · rw [same, history, List.append_assoc]
    · simp [quiet]
    · rw [welcomes_append, codes]
      rfl
  cases foundSender : server.findClientByFd other with
  | none =>
      have missing : start.findClientByFd other = none := by
        rw [← recorded]
        exact foundSender
      have same : start.dispatchCommand other message = start := by
        simp only [dispatchCommand, missing]
      apply extend
      have unchanged : next = client := by
        rw [same, ← recorded] at foundNext
        exact Option.some.inj (foundNext.symm.trans found)
      rw [same, unchanged]
      refine ⟨[], by simp, by simp, ?_⟩
      rw [registered_same rfl]
      rfl
  | some sender =>
      apply extend
      apply welcomes_dispatchCommand reached foundSender _ _ _ found foundNext
      · intro record foundRecord
        exact nickname_valid after foundRecord
      · intro fd
        rw [← recorded]
        rfl
      · rw [← recorded]
        rfl
      · rw [← recorded]
        rfl

/-- Every step queues the whole welcome sequence to a connection that it registers, and
nothing of it to any other. -/
theorem welcomes_advance (reached : stepSystem.Reachable server) {step : ServerStep}
    (ready : server.ready step = true) (found : server.findClientByFd fd = some client)
    {next : Client} (foundNext : (server.advance step).findClientByFd fd = some next) :
    WelcomeStep fd server (server.advance step) client next := by
  have consistent := step_reachable_consistent reached
  have steady : step.subject ≠ some fd → next.registered = client.registered := by
    intro elsewhere
    have same := identity_advance consistent elsewhere
    rw [foundNext, found, Option.map_some, Option.map_some, Option.some.injEq] at same
    exact Client.registered_of_identity same
  rcases advance_events consistent ready with ⟨events, stepEvents⟩
  -- A step that posts no command line adds no welcome.
  have silent : step.subject ≠ some fd →
      (∀ line, StepLine server step ⟨fd, line⟩ → welcomeCode line = none) →
      WelcomeStep fd server (server.advance step) client next := by
    intro elsewhere unwelcome
    refine ⟨events, stepEvents.history, ?_, ?_⟩
    · intro entering
      rcases (stepEvents.accepted fd entering).1 with ⟨peerAddress, rfl⟩
      exact elsewhere rfl
    · rw [registered_same (steady elsewhere), if_neg (by simp)]
      exact welcomes_eq_nil fun line listed => unwelcome line (stepEvents.lines fd line listed)
  cases step with
  | command other message => exact welcomes_command reached found foundNext
  | accept other peerAddress =>
      apply silent
      · intro same
        simp only [ServerStep.subject, Option.some.injEq] at same
        have missing := (findClientByFd_of_core server other).mp (core_clients_of_ready ready)
        rw [same, found] at missing
        simp at missing
      · rintro line ⟨⟩
  | refuse other error =>
      apply silent (by simp [ServerStep.subject])
      intro line posted
      generalize posting : (⟨fd, line⟩ : Posting) = sent at posted
      cases posted with
      | refused _ _ =>
          rw [Posting.mk.injEq] at posting
          rw [posting.2]
          apply welcomeCode_of_head
          cases error with
          | lineTooLong => decide
          | bufferLimit => decide
  | disconnect other reason =>
      apply silent
      · intro same
        simp only [ServerStep.subject, Option.some.injEq] at same
        subst same
        have gone := (disconnectClient_disconnected found reason).gone
        change (server.disconnectClient other reason).findClientByFd other = _ at foundNext
        rw [gone] at foundNext
        simp at foundNext
      · intro line posted
        generalize posting : (⟨fd, line⟩ : Posting) = sent at posted
        cases posted with
        | quit foundLeaving _ =>
            rw [Posting.mk.injEq] at posting
            rw [posting.2]
            exact welcomeCode_of_command (nickname_valid reached foundLeaving) (ascii "QUIT") _
  | receive other data =>
      apply silent (by simp [ServerStep.subject])
      rintro line ⟨⟩
  | consume other length =>
      apply silent (by simp [ServerStep.subject])
      rintro line ⟨⟩
  | reserve other =>
      apply silent (by simp [ServerStep.subject])
      rintro line ⟨⟩
  | flush other sent =>
      apply silent (by simp [ServerStep.subject])
      rintro line ⟨⟩
  | takeReservations =>
      apply silent (by simp [ServerStep.subject])
      rintro line ⟨⟩

end Server

/-! ## The account and the commands of a connection -/

namespace Account

/-- The stored user data. -/
def user (account : Account) : Option (Bytes × Bytes) :=
  if account.userReceived then some (account.username, account.realname) else none

variable {account : Account} (sound : account.Sound) (password : Bytes)
  (available : Bytes → Bool) (message : Message)
include sound

/-- A registration is for good. -/
theorem registered_next (registered : account.registered = true) :
    (account.next password available message).registered = true := by
  have received : account.userReceived = true := by
    have whole := sound.registered
    simp only [registered, complete] at whole
    simp_all
  by_cases nick : message.command = ascii "NICK"
  · rw [next_nick nick]
    split
    · exact registered
    · split
      · simp [tryComplete, setNickname, registered]
      · exact registered
  · rw [next_of_rejected registered nick]
    exact registered

/-- The password is accepted by the first PASS that gives it. -/
theorem passwordAccepted_next :
    (account.next password available message).passwordAccepted =
      (account.passwordAccepted || givesPassword password message) := by
  have accepted : account.registered = true → account.passwordAccepted = true := by
    intro registered
    have whole := sound.registered
    simp only [registered, complete] at whole
    simp_all
  by_cases pass : message.command = ascii "PASS"
  · rw [next_pass pass]
    cases given : givesPassword password message with
    | false => simp
    | true =>
        cases registered : account.registered with
        | false => simp [tryComplete, acceptPassword]
        | true => simp [accepted registered]
  · have other : givesPassword password message = false := by
      simp [givesPassword, pass]
    rw [other, Bool.or_false]
    by_cases nick : message.command = ascii "NICK"
    · rw [next_nick nick]
      split
      · rfl
      · split
        · rfl
        · rfl
    · rw [next_user pass nick]
      split
      · rfl
      · split
        · rfl
        · rfl

/-- The user data are those of the first valid USER. -/
theorem user_next :
    (account.next password available message).user = account.user.or (userData message) := by
  have received : account.registered = true → account.userReceived = true := by
    intro registered
    have whole := sound.registered
    simp only [registered, complete] at whole
    simp_all
  by_cases pass : message.command = ascii "PASS"
  · have other : userData message = none := by
      have notUser : message.command ≠ ascii "USER" := by
        rw [pass]
        decide
      simp only [userData, if_neg notUser]
    rw [next_pass pass, other, Option.or_none]
    split
    · rfl
    · rfl
  · by_cases nick : message.command = ascii "NICK"
    · have other : userData message = none := by
        have notUser : message.command ≠ ascii "USER" := by
          rw [nick]
          decide
        simp only [userData, if_neg notUser]
      rw [next_nick nick, other, Option.or_none]
      split
      · rfl
      · split
        · rfl
        · rfl
    · rw [next_user pass nick]
      cases data : userData message with
      | none => simp
      | some names =>
          rcases names with ⟨username, realname⟩
          cases flag : account.userReceived with
          | true => simp [user, flag]
          | false =>
              have unregistered : account.registered = false := by
                rw [Bool.eq_false_iff]
                intro registered
                rw [received registered] at flag
                exact Bool.noConfusion flag
              simp [user, flag, unregistered, tryComplete, setUser]

end Account

/-- The commands dispatched from a connection since it was accepted. -/
def commandsSince (fd : Int) (steps : List ServerStep) : List Message :=
  steps.foldl
    (fun commands step =>
      match step with
      | .accept other _ => if other = fd then [] else commands
      | .command other message => if other = fd then commands ++ [message] else commands
      | _ => commands)
    []

theorem commandsSince_accept (fd : Int) (steps : List ServerStep) (peerAddress : Bytes) :
    commandsSince fd (steps ++ [.accept fd peerAddress]) = [] := by
  simp [commandsSince, List.foldl_append]

theorem commandsSince_command (fd : Int) (steps : List ServerStep) (message : Message) :
    commandsSince fd (steps ++ [.command fd message]) = commandsSince fd steps ++ [message] := by
  simp [commandsSince, List.foldl_append]

theorem commandsSince_other {fd : Int} {step : ServerStep} (elsewhere : step.subject ≠ some fd)
    (steps : List ServerStep) :
    commandsSince fd (steps ++ [step]) = commandsSince fd steps := by
  simp only [commandsSince, List.foldl_append, List.foldl_cons, List.foldl_nil]
  cases step with
  | accept other _ =>
      simp only [ServerStep.subject, ne_eq, Option.some.injEq] at elsewhere
      simp only [if_neg elsewhere]
  | command other _ =>
      simp only [ServerStep.subject, ne_eq, Option.some.injEq] at elsewhere
      simp only [if_neg elsewhere]
  | _ => rfl

namespace Server

/-- The account of a live connection, computed from its commands and its transcript. -/
structure RegistrationLaw (fd : Int) (steps : List ServerStep) (server : Server)
    (client : Client) : Prop where
  registered : client.registered = true ↔
    client.passwordAccepted = true ∧ client.nickname ≠ [] ∧ client.userReceived = true
  password : client.passwordAccepted = true ↔ ∃ message ∈ commandsSince fd steps,
    message.command = ascii "PASS" ∧ message.params.head? = some server.password
  user : (if client.userReceived then some (client.username, client.realname) else none) =
    (commandsSince fd steps).findSome? Account.userData
  welcome : welcomes fd (sinceAccepted fd server.history) =
    if client.registered then welcomeCodes else []

variable {server : Server} {fd : Int} {client : Client}

theorem registered_iff_of_sound (sound : client.account.Sound) : client.registered = true ↔
    client.passwordAccepted = true ∧ client.nickname ≠ [] ∧ client.userReceived = true := by
  have whole : client.registered = client.account.complete := sound.registered
  rw [whole]
  simp [Account.complete, Client.account, and_assoc]

theorem givesPassword_iff {password : Bytes} {message : Message} :
    Account.givesPassword password message = true ↔
      message.command = ascii "PASS" ∧ message.params.head? = some password := by
  simp [Account.givesPassword]

theorem registrationLaw_step {steps : List ServerStep} {step : ServerStep}
    (reached : stepSystem.Reachable server) (ready : server.ready step = true)
    (before : ∀ client, server.findClientByFd fd = some client →
      RegistrationLaw fd steps server client)
    {next : Client} (foundNext : (server.advance step).findClientByFd fd = some next) :
    RegistrationLaw fd (steps ++ [step]) (server.advance step) next := by
  have consistent := step_reachable_consistent reached
  have after : stepSystem.Reachable (server.advance step) :=
    (leads_advance (Machine.Leads.refl server) step ready).reachable reached
  have samePassword : (server.advance step).password = server.password :=
    (advance_settings server step).password
  have registered := registered_iff_of_sound (step_reachable_sound after foundNext)
  -- The transcript goes on, unless this step accepts the connection.
  have continues : ∀ client, server.findClientByFd fd = some client →
      (client.registered = true → next.registered = true) →
      welcomes fd (sinceAccepted fd (server.advance step).history) =
        if next.registered then welcomeCodes else [] := by
    intro client found still
    rcases welcomes_advance reached ready found foundNext with ⟨events, history, quiet, codes⟩
    rw [history, sinceAccepted_append _ quiet, welcomes_append, (before client found).welcome,
      codes]
    cases old : client.registered with
    | false => simp
    | true => simp [still old]
  rcases account_advance consistent ready foundNext with
    ⟨peerAddress, rfl, account⟩ | ⟨client, found, ⟨message, rfl, account⟩ | ⟨elsewhere, same⟩⟩
  · have history := (acceptClient_events ready).history
    have accepted : next.passwordAccepted = false := congrArg Account.passwordAccepted account
    have received : next.userReceived = false := congrArg Account.userReceived account
    have unregistered : next.registered = false := congrArg Account.registered account
    refine ⟨registered, ?_, ?_, ?_⟩
    · simp [commandsSince_accept, accepted]
    · simp [commandsSince_accept, received]
    · change welcomes fd (sinceAccepted fd (server.acceptClient _).history) = _
      rw [history, sinceAccepted_accepted, unregistered]
      rfl
  · have law := before client found
    have sound := step_reachable_sound reached found
    refine ⟨registered, ?_, ?_, ?_⟩
    · have accepted : next.passwordAccepted = (client.account.passwordAccepted ||
          Account.givesPassword server.password message) := by
        rw [← Account.passwordAccepted_next sound]
        exact congrArg Account.passwordAccepted account
      have old : client.account.passwordAccepted = client.passwordAccepted := rfl
      rw [accepted, old, Bool.or_eq_true, law.password, givesPassword_iff, samePassword,
        commandsSince_command]
      simp only [List.mem_append, List.mem_singleton]
      constructor
      · rintro (⟨earlier, listed, gives⟩ | gives)
        · exact ⟨earlier, Or.inl listed, gives⟩
        · exact ⟨message, Or.inr rfl, gives⟩
      · rintro ⟨given, listed | rfl, gives⟩
        · exact Or.inl ⟨given, listed, gives⟩
        · exact Or.inr gives
    · have stored : (if next.userReceived then some (next.username, next.realname) else none) =
          client.account.user.or (Account.userData message) := by
        rw [← Account.user_next sound server.password
          (fun nickname => server.isNicknameAvailable nickname fd)]
        exact congrArg Account.user account
      have old : client.account.user = (commandsSince fd steps).findSome? Account.userData :=
        law.user
      rw [stored, old, commandsSince_command, List.findSome?_append]
      simp
    · apply continues client found
      intro registeredBefore
      have flag := Account.registered_next sound server.password
        (fun nickname => server.isNicknameAvailable nickname fd) message registeredBefore
      rw [← account] at flag
      exact flag
  · have law := before client found
    have sameAccount := Client.account_of_identity same
    have accepted : next.passwordAccepted = client.passwordAccepted :=
      congrArg Account.passwordAccepted sameAccount
    have stored : (if next.userReceived then some (next.username, next.realname) else none) =
        if client.userReceived then some (client.username, client.realname) else none :=
      congrArg Account.user sameAccount
    refine ⟨registered, ?_, ?_, ?_⟩
    · rw [accepted, law.password, commandsSince_other elsewhere, samePassword]
    · rw [stored, law.user, commandsSince_other elsewhere]
    · apply continues client found
      intro registeredBefore
      rw [Client.registered_of_identity same]
      exact registeredBefore

/-- The law of registration: in every run the account of a connection is determined by the
commands it sent, the welcome sequence was queued to it exactly if it is registered, and a
dispatch queues it exactly if it registers the connection. -/
theorem performAll_registrationLaw {password serverStartTime : Bytes} {listenFd : Int}
    {steps : List ServerStep}
    (performed : stepMachine.performAll steps (fresh password serverStartTime listenFd) =
      some server)
    (found : server.findClientByFd fd = some client) :
    RegistrationLaw fd steps server client ∧ server.password = password ∧
    ∀ other message next, (server.advance (.command other message)).findClientByFd fd =
      some next → WelcomeStep fd server (server.advance (.command other message)) client next := by
  have reached : ∀ {steps server}, stepMachine.performAll steps
      (fresh password serverStartTime listenFd) = some server → stepSystem.Reachable server :=
    fun performed => Machine.Leads.reachable ⟨_, performed⟩ (step_reachable_fresh _ _ _)
  refine ⟨?_, ?_, fun other message next foundNext =>
    welcomes_command (reached performed) found foundNext⟩
  · revert client
    -- The induction is on the number of steps made.
    refine Machine.performAll_induction (fun steps server => ∀ {client},
      server.findClientByFd fd = some client → RegistrationLaw fd steps server client) ?_ ?_
      performed
    · intro client found
      simp [fresh, findClientByFd] at found
    · intro steps step between performed before ready next foundNext
      exact registrationLaw_step (reached performed) ready (fun client found => before found)
        foundNext
  · refine Machine.performAll_induction (fun _ server => server.password = password) rfl ?_
      performed
    intro steps step between _ same _
    exact (advance_settings between step).password.trans same

/-- The registration of the second member. -/
theorem performAll_registrationLaw_bob : ∃ bob, alicesRoom.findClientByFd 5 = some bob ∧
    RegistrationLaw 5 (enterSteps 4 (ascii "alice") (ascii "#Room") ++
      enterSteps 5 (ascii "bob") (ascii "#room")) alicesRoom bob := by
  have performs : (stepMachine.performAll (enterSteps 4 (ascii "alice") (ascii "#Room") ++
      enterSteps 5 (ascii "bob") (ascii "#room"))
      (fresh (ascii "secret") (ascii "today") 3)).isSome = true := by decide +kernel
  have live : (alicesRoom.findClientByFd 5).isSome = true := by decide +kernel
  rcases Option.isSome_iff_exists.mp live with ⟨bob, found⟩
  exact ⟨bob, found, (performAll_registrationLaw
    (Machine.performAll_eq_performOr performs) found).1⟩

end Server

end IrcPlatform.Irc
