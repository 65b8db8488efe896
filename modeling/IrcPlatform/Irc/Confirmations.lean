import IrcPlatform.Irc.Deliveries
import IrcPlatform.Irc.LineForm

/-!
# Confirmed joins

The server queues the JOIN line of a channel to its members only: the notices of the other
commands have other words, and nobody leaves a channel while the list of a JOIN is worked off.
-/

namespace IrcPlatform.Irc

open Std

/-! ## The word of a line -/

/-- The command or the code of a line. -/
def lineWord (line : Bytes) : Bytes :=
  (Parser.takeToken (if line.head? = some (byte ':') then (Parser.takeToken line).2.drop 1
    else line)).1

theorem LineForm.lineWord_eq {line linePrefix word rest : Bytes}
    (form : LineForm line linePrefix word rest) : lineWord line = word := by
  rcases isMiddle_iff.mp (isMiddle_lineWord form.word) with ⟨nonempty, noColon, spaceless⟩
  have taken := Parser.takeToken_of_ends spaceless form.ends
  rw [lineWord, form.assembled]
  split
  next missing =>
    rw [List.nil_append, List.head?_append_of_ne_nil _ nonempty, if_neg noColon, taken]
  next given =>
    have safe := form.linePrefix (by simpa using given)
    have outside : byte ' ' ∉ byte ':' :: linePrefix := by
      rw [List.mem_cons, not_or]
      exact ⟨by decide, noSpace_of_safe safe⟩
    have front := Parser.takeToken_of_ends outside
      (Or.inr ⟨word ++ rest, rfl⟩ : EndsWord (byte ' ' :: (word ++ rest)))
    simp only [List.cons_append, List.append_assoc, List.nil_append] at front ⊢
    rw [List.head?_cons, if_pos rfl, front, List.drop_one, List.tail_cons, taken]

/-- A reply has its word, or it is empty. -/
theorem lineWord_command {word : Bytes} (listed : word ∈ lineWords) (linePrefix : Bytes)
    (parameters : Bytes) : Reply.command linePrefix word parameters = [] ∨
      lineWord (Reply.command linePrefix word parameters) = word :=
  (command_form listed linePrefix parameters).imp_right LineForm.lineWord_eq

theorem lineWord_numeric {serverName : Bytes} {target : Client} {code : Nat}
    (listed : code ∈ welcomeCodes ++ replyCodes) (parameters : Bytes) :
    Reply.numeric serverName target code parameters = [] ∨
      lineWord (Reply.numeric serverName target code parameters) = Reply.threeDigits code :=
  (numeric_form listed parameters).imp_right LineForm.lineWord_eq

theorem lineWord_nil : lineWord [] = [] := rfl

/-- A reply with another word is no JOIN line. -/
theorem not_join_of_command {word : Bytes} (listed : word ∈ lineWords)
    (other : word ≠ ascii "JOIN") (linePrefix parameters : Bytes) :
    lineWord (Reply.command linePrefix word parameters) ≠ ascii "JOIN" := by
  rcases lineWord_command listed linePrefix parameters with empty | same
  · rw [empty, lineWord_nil]
    decide
  · rwa [same]

theorem digits_not_join : ∀ code ∈ welcomeCodes ++ replyCodes,
    Reply.threeDigits code ≠ ascii "JOIN" := by
  decide +kernel

theorem not_join_of_numeric {serverName : Bytes} {target : Client} {code : Nat}
    (listed : code ∈ welcomeCodes ++ replyCodes) (parameters : Bytes) :
    lineWord (Reply.numeric serverName target code parameters) ≠ ascii "JOIN" := by
  rcases @lineWord_numeric serverName target code listed parameters with empty | same
  · rw [empty, lineWord_nil]
    decide
  · rw [same]
    exact digits_not_join code listed

/-- The words of the notices that are no JOIN lines. -/
def otherNotices : List Bytes :=
  [ascii "PRIVMSG", ascii "NICK", ascii "PART", ascii "KICK", ascii "INVITE", ascii "TOPIC",
    ascii "MODE"]

theorem otherNotices_words : ∀ word ∈ otherNotices, word ∈ lineWords ∧ word ≠ ascii "JOIN" := by
  decide +kernel

/-- A notice of one of these words. -/
def Notice.Other (notice : Notice) : Prop :=
  ∃ linePrefix word parameters, word ∈ otherNotices ∧
    notice.line = Reply.command linePrefix word parameters

theorem Notice.Other.not_join {notice : Notice} (other : notice.Other) :
    lineWord notice.line ≠ ascii "JOIN" := by
  rcases other with ⟨linePrefix, word, parameters, listed, same⟩
  rcases otherNotices_words word listed with ⟨known, different⟩
  rw [same]
  exact not_join_of_command known different linePrefix parameters

namespace Server

variable {server : Server} {fd : Int} {client : Client}

/-- The lines that a step queues to a descriptor. -/
def stepLines (server : Server) (step : ServerStep) (fd : Int) : List Bytes :=
  queuedLines fd ((server.advance step).history.drop server.history.length)

theorem stepLines_of_history {step : ServerStep} {events : List HistoryEvent}
    (history : (server.advance step).history = server.history ++ events) (fd : Int) :
    server.stepLines step fd = queuedLines fd events := by
  rw [stepLines, history, List.drop_left]

/-- The words of the replies that tell of something else. -/
theorem other_words : ∀ word ∈ [ascii "CAP", ascii "PONG", ascii "PRIVMSG", ascii "INVITE",
    ascii "QUIT"], word ∈ lineWords ∧ word ≠ ascii "JOIN" := by
  decide

theorem error_not_join (error : InputError) : lineWord error.text ≠ ascii "JOIN" := by
  cases error with
  | lineTooLong => decide
  | bufferLimit => decide

/-- Only a command of a client can post a JOIN line, with the prefix of this client. -/
theorem command_of_join {step : ServerStep} {posting : Posting}
    (line : StepLine server step posting) (join : lineWord posting.message = ascii "JOIN") :
    ∃ sender message client parameters, step = .command sender message ∧
      server.findClientByFd sender = some client ∧ posting.message =
        Reply.command (Reply.clientPrefix client) (ascii "JOIN") parameters := by
  have other {word linePrefix parameters : Bytes} (listed : word ∈ [ascii "CAP", ascii "PONG",
      ascii "PRIVMSG", ascii "INVITE", ascii "QUIT"]) :
      lineWord (Reply.command linePrefix word parameters) ≠ ascii "JOIN" := by
    rcases other_words word listed with ⟨known, different⟩
    exact not_join_of_command known different linePrefix parameters
  cases line with
  | @command sender client message _ found line =>
      cases line with
      | numeric listed parameters =>
          exact absurd join (not_join_of_numeric (List.mem_append_right _ listed) parameters)
      | @answer word listed parameters =>
          apply absurd join (other _)
          simp only [List.mem_cons, List.not_mem_nil, or_false] at listed ⊢
          rcases listed with same | same
          · exact Or.inl same
          · exact Or.inr (Or.inl same)
      | @notice receiver record word _ _ _ listed parameters =>
          by_cases same : word = ascii "JOIN"
          · exact ⟨sender, message, client, parameters, rfl, found, same ▸ rfl⟩
          · have relayed : word ∈ lineWords :=
              List.mem_append_left _ (List.mem_append_right _ listed)
            exact absurd join (not_join_of_command relayed same _ _)
      | privmsg _ _ _ _ _ _ => exact absurd join (@other (ascii "PRIVMSG") _ _ (by simp))
      | invite _ _ _ _ _ _ => exact absurd join (@other (ascii "INVITE") _ _ (by simp))
  | welcome _ _ _ listed =>
      rcases numeric_of_welcome listed with ⟨code, codeListed, parameters, rfl⟩
      exact absurd join (not_join_of_numeric (List.mem_append_left _ codeListed) parameters)
  | refused fd error => exact absurd join (error_not_join error)
  | quit _ _ => exact absurd join (@other (ascii "QUIT") _ _ (by simp))

/-! ## Who gets JOIN lines -/

theorem joinLine_of_identity {other : Client} (same : other.identity = client.identity)
    (channel : Channel) : joinLine other channel = joinLine client channel := by
  rw [joinLine, joinLine, Reply.clientPrefix_of_identity same]

/-- An element of a JOIN list takes nobody out of a channel. -/
theorem isMember_joinElement (consistent : server.core.Consistent)
    (found : server.findClientByFd fd = some client) (name key : Bytes) {other : Int}
    {joined : Bytes} (member : server.core.IsMember other joined) :
    (server.joinElement fd name key).core.IsMember other joined := by
  have outcome := joinElement_outcome consistent found name key
  generalize server.joinElement fd name key = after at outcome
  cases outcome with
  | refused _ _ answered => rwa [answered, core_queueToClient]
  | member _ same => rwa [same]
  | admitted admits core _ =>
      have admission := joinAdmission_of_core consistent found admits core
      rcases member with ⟨channel, stored, member⟩
      by_cases same : joined = IrcUtil.normalizeChannelName name
      · rw [same] at stored ⊢
        refine ⟨_, admission.stored, ?_⟩
        rw [admission.existing channel stored]
        exact ExtTreeSet.mem_insert.mpr (Or.inr member)
      · exact ⟨channel, (admission.channels joined same).trans stored, member⟩

theorem isMember_joinElements (sender : Sender server fd client) (names keys : List Bytes)
    {other : Int} {joined : Bytes} (member : server.core.IsMember other joined) :
    (joinElements fd names keys server).core.IsMember other joined := by
  induction names generalizing server client keys with
  | nil => exact member
  | cons name names ih =>
      rcases sender.joinElement name (keys.headD []) with ⟨current, later, _⟩
      exact ih later keys.tail
        (isMember_joinElement sender.wellFormed.consistent sender.found name _ member)

theorem joinElement_admission (consistent : server.core.Consistent)
    (found : server.findClientByFd fd = some client) {name key : Bytes}
    (admits : server.Admits fd name key) : JoinAdmission fd name server
      (server.joinElement fd name key) (server.enteredChannel fd name) := by
  have outcome := joinElement_outcome consistent found name key
  generalize server.joinElement fd name key = after at outcome
  cases outcome with
  | refused refusal _ _ => exact absurd admits refusal.not_admits
  | member joined _ => exact absurd ((isMember_iff consistent found _).mpr joined) admits.outside
  | admitted _ core _ => exact joinAdmission_of_core consistent found admits core

/-- The notices of a JOIN are the JOIN lines of channels, for clients that are members of
them after the whole list. -/
theorem joinNotices_members (sender : Sender server fd client) {names keys : List Bytes}
    {notice : Notice} (listed : notice ∈ joinNotices fd names keys server) :
    ∃ channel, notice.line = joinLine client channel ∧ ∀ other ∈ notice.audience,
      other ∈ (joinElements fd names keys server).core.audience channel.name := by
  induction names generalizing server client keys with
  | nil => simp [joinNotices] at listed
  | cons name names ih =>
      rcases sender.joinElement name (keys.headD []) with ⟨current, later, identity⟩
      rcases List.mem_append.mp listed with first | rest
      · simp only [joinNotice, sender.found] at first
        split at first
        next admits =>
          rw [List.mem_singleton] at first
          have stored := (joinElement_admission sender.wellFormed.consistent sender.found
            admits).stored
          have sameKey := later.wellFormed.consistent.key_normalized _ _ stored
          subst first
          refine ⟨server.enteredChannel fd name, rfl, ?_⟩
          intro other inside
          have member := isMember_joinElements later names keys.tail inside
          rwa [← sameKey] at member
        · simp at first
      · rcases ih later rest with ⟨channel, line, members⟩
        exact ⟨channel, line.trans (joinLine_of_identity identity channel), members⟩

theorem other_of_leaveNotice {notice : Notice} {reason name : Bytes}
    (listed : notice ∈ server.leaveNotice fd reason name) : notice.Other := by
  simp only [leaveNotice] at listed
  split at listed
  · split at listed
    · rw [List.mem_singleton.mp listed]
      exact ⟨_, ascii "PART", _, by simp [otherNotices], rfl⟩
    · simp at listed
  · simp at listed

theorem other_of_leaveNotices {notice : Notice} {reason : Bytes} {keys : List Bytes}
    (listed : notice ∈ leaveNotices fd reason keys server) : notice.Other := by
  induction keys generalizing server with
  | nil => simp [leaveNotices] at listed
  | cons key keys ih =>
      rcases List.mem_append.mp listed with first | rest
      · exact other_of_leaveNotice first
      · exact ih rest

theorem other_of_partNotices {notice : Notice} {reason : Bytes} {names : List Bytes}
    (listed : notice ∈ partNotices fd reason names server) : notice.Other := by
  induction names generalizing server with
  | nil => simp [partNotices] at listed
  | cons name names ih =>
      rcases List.mem_append.mp listed with first | rest
      · exact other_of_leaveNotice first
      · exact ih rest

theorem other_of_privmsgNotice {notice : Notice} {text target : Bytes}
    (listed : notice ∈ server.privmsgNotice fd client text target) : notice.Other := by
  simp only [privmsgNotice] at listed
  split at listed
  · split at listed
    · simp at listed
    · split at listed
      · rw [List.mem_singleton.mp listed]
        exact ⟨_, ascii "PRIVMSG", _, by simp [otherNotices], rfl⟩
      · simp at listed
  · split at listed
    · simp at listed
    · rw [List.mem_singleton.mp listed]
      exact ⟨_, ascii "PRIVMSG", _, by simp [otherNotices], rfl⟩

theorem other_of_nickNotice {notice : Notice} {nickname : Bytes}
    (listed : notice ∈ server.nickNotice fd client nickname) : notice.Other := by
  simp only [nickNotice] at listed
  split at listed
  · rw [List.mem_singleton.mp listed]
    exact ⟨_, ascii "NICK", _, by simp [otherNotices], rfl⟩
  · simp at listed

theorem other_of_kickNotice {notice : Notice} {channelName targetNick reason : Bytes}
    (listed : notice ∈ server.kickNotice fd client channelName targetNick reason) :
    notice.Other := by
  simp only [kickNotice] at listed
  split at listed
  · simp at listed
  · split at listed
    · simp at listed
    · split at listed
      · rw [List.mem_singleton.mp listed]
        exact ⟨_, ascii "KICK", _, by simp [otherNotices], rfl⟩
      · simp at listed

theorem other_of_inviteNotice {notice : Notice} {targetNick channelName : Bytes}
    (listed : notice ∈ server.inviteNotice fd client targetNick channelName) :
    notice.Other := by
  simp only [inviteNotice] at listed
  split at listed
  · simp at listed
  · split at listed
    · simp at listed
    · split at listed
      · rw [List.mem_singleton.mp listed]
        exact ⟨_, ascii "INVITE", _, by simp [otherNotices], rfl⟩
      · simp at listed

theorem other_of_topicNotice {notice : Notice} {after : Server} {channelName topic : Bytes}
    (listed : notice ∈ server.topicNotice fd client after channelName topic) :
    notice.Other := by
  simp only [topicNotice] at listed
  split at listed
  · simp at listed
  · split at listed
    · rw [List.mem_singleton.mp listed]
      exact ⟨_, ascii "TOPIC", _, by simp [otherNotices], rfl⟩
    · simp at listed

theorem other_of_modeNotice {notice : Notice} {after : Server} {target modeString : Bytes}
    {arguments : List Bytes}
    (listed : notice ∈ server.modeNotice fd client after target modeString arguments) :
    notice.Other := by
  simp only [modeNotice] at listed
  split at listed
  · simp at listed
  · split at listed
    · rw [List.mem_singleton.mp listed]
      exact ⟨_, ascii "MODE", _, by simp [otherNotices], rfl⟩
    · simp at listed

/-- A notice is one of another word, or it comes from the list of a JOIN. -/
theorem notice_cases (found : server.findClientByFd fd = some client) {message : Message}
    {notice : Notice} (listed : notice ∈ server.notices fd message) :
    notice.Other ∨ client.registered = true ∧ message.command = ascii "JOIN" ∧
      ∃ targets arguments, message.params = targets :: arguments ∧ targets ≠ ascii "0" ∧
        notice ∈ joinNotices fd (IrcUtil.splitCommaList targets) (joinKeys arguments) server := by
  simp only [notices, found] at listed
  -- the branches in the order of `notices`, each of them after those whose command differs
  split at listed
  · simp at listed
  next registered =>
  split at listed
  · split at listed
    · simp at listed
    · split at listed
      · simp at listed
      · rcases List.mem_flatMap.mp listed with ⟨target, _, inside⟩
        exact Or.inl (other_of_privmsgNotice inside)
  split at listed
  · split at listed
    · simp at listed
    · exact Or.inl (other_of_nickNotice listed)
  split at listed
  next command =>
    split at listed
    · simp at listed
    next targets arguments params =>
      split at listed
      · exact Or.inl (other_of_leaveNotices listed)
      next notAll =>
        exact Or.inr ⟨by simpa using registered, command, targets, arguments, params, notAll,
          listed⟩
  split at listed
  · split at listed
    · simp at listed
    · exact Or.inl (other_of_partNotices listed)
  split at listed
  · split at listed
    · exact Or.inl (other_of_kickNotice listed)
    · simp at listed
  split at listed
  · split at listed
    · exact Or.inl (other_of_inviteNotice listed)
    · simp at listed
  split at listed
  · split at listed
    · exact Or.inl (other_of_topicNotice listed)
    · simp at listed
  split at listed
  · split at listed
    · exact Or.inl (other_of_modeNotice listed)
    · simp at listed
  · simp at listed

/-! ## Confirmations -/

theorem mem_addressed_of_stepLines {sender : Int} {message : Message} {postings : List Posting}
    (posts : (server.record (.dispatched sender (server.pendingDisconnects.contains
      sender))).Posts postings (server.advance (.command sender message))) {line : Bytes}
    (queued : line ∈ server.stepLines (.command sender message) fd) :
    line ∈ addressed fd postings := by
  have history := posts.history
  rw [show (server.record _).history = server.history ++ [_] from rfl, List.append_assoc]
    at history
  rw [stepLines_of_history history] at queued
  rcases List.mem_filterMap.mp queued with ⟨event, listed, result⟩
  rcases List.mem_append.mp listed with dispatched | entry
  · rw [List.mem_singleton.mp dispatched] at result
    simp [HistoryEvent.queuedTo] at result
  · rcases Mail.mem_entries _ entry with ⟨posting, postingListed, appended, rfl⟩
    simp only [HistoryEvent.queuedTo, Option.ite_none_right_eq_some, Option.some.injEq] at result
    rcases result with ⟨own, rfl⟩
    exact List.mem_map.mpr ⟨posting, List.mem_filter.mpr ⟨postingListed, by simpa using own⟩, rfl⟩

/-- The step queues the JOIN line of a channel, for the command of a client, to a client
that is a member of the channel then. -/
structure Confirms (server : Server) (step : ServerStep) (fd : Int) (line channel : Bytes) :
    Prop where
  queued : line ∈ server.stepLines step fd
  join : ∃ sender message client room, step = .command sender message ∧
    server.findClientByFd sender = some client ∧ line = joinLine client room ∧
    room.name = channel
  member : fd ∈ (server.advance step).core.audience channel

/-- A confirmed channel has a valid name. -/
theorem Confirms.valid {step : ServerStep} {line channel : Bytes}
    (confirms : server.Confirms step fd line channel) (reached : stepSystem.Reachable server)
    (ready : server.ready step = true) : IrcUtil.isValidChannelName channel = true := by
  have invariants := step_reachable_invariants (reached.next ⟨ready, rfl⟩)
  rcases confirms.member with ⟨room, stored, _⟩
  rw [← IrcUtil.isValidChannelName_normalize]
  exact invariants.wellFormed.names _ room stored

/-- Every JOIN line of a step is a confirmation. -/
theorem confirms_of_join (reached : stepSystem.Reachable server) {step : ServerStep}
    (ready : server.ready step = true) {line : Bytes} (queued : line ∈ server.stepLines step fd)
    (join : lineWord line = ascii "JOIN") :
    ∃ channel, server.Confirms step fd line channel := by
  have invariants := step_reachable_invariants reached
  rcases advance_events invariants.wellFormed.consistent ready with ⟨events, stepEvents⟩
  have listed := queued
  rw [stepLines_of_history stepEvents.history] at listed
  rcases command_of_join (stepEvents.lines fd line listed) join with
    ⟨sender, message, client, parameters, rfl, found, written⟩
  simp only at written
  have recorded := invariants.record
    (.dispatched sender (server.pendingDisconnects.contains sender))
  generalize recording : server.record
    (.dispatched sender (server.pendingDisconnects.contains sender)) = start at recorded
  have foundStart : start.findClientByFd sender = some client := by rw [← recording]; exact found
  have after : server.advance (.command sender message) = start.dispatchCommand sender message := by
    rw [← recording]
    rfl
  rcases dispatchCommand_delivers recorded sender message with ⟨postings, posts, sorted⟩
  rw [← after, ← recording] at posts
  have addressedLine := mem_addressed_of_stepLines posts queued
  have relayed : Reply.fromServer line = false := by
    rw [written]
    exact fromServer_command (recorded.nickname_valid foundStart) (ascii "JOIN") parameters
  have copied : line ∈ copies fd (start.notices sender message) := by
    by_cases own : fd = sender
    · rw [own, ← sorted.own, ← own]
      exact List.mem_filter.mpr ⟨addressedLine, by rw [relayed]; rfl⟩
    · rwa [← sorted.others fd own]
  rcases List.mem_map.mp copied with ⟨notice, chosen, rfl⟩
  rcases List.mem_filter.mp chosen with ⟨noticeListed, inside⟩
  rcases notice_cases foundStart noticeListed with other |
    ⟨registered, command, targets, arguments, params, notAll, inList⟩
  · exact absurd join other.not_join
  · have sent : Sender start sender client :=
      ⟨foundStart, registered, recorded.nickname_valid foundStart, recorded.serverName,
        recorded.wellFormed⟩
    rcases joinNotices_members sent inList with ⟨room, same, members⟩
    refine ⟨room.name, queued, ⟨sender, message, client, room, rfl, found, same, rfl⟩, ?_⟩
    rw [after, dispatchCommand_joinElements foundStart registered command params notAll]
    exact members fd (by simpa using inside)

end Server

end IrcPlatform.Irc
