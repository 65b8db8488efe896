import IrcPlatform.Irc.LineShape
import IrcPlatform.Irc.Transcript

/-!
# Line integrity

Whatever bytes the clients send, a client only ever receives whole lines, and the
first token of a line says truly where it comes from: the server itself, an input
error, or the client whose command or disconnection it reports, under the name it
had before the step.
-/

namespace IrcPlatform.Irc

open Std

/-- Where a line of one step comes from. -/
inductive Origin (server : Server) : ServerStep → Bytes → Prop where
  | server {fd : Int} {message : Message} {line : Bytes}
      (head : ascii ":ircserv.local " <+: line) : Origin server (.command fd message) line
  | error {fd : Int} {error : InputError} {line : Bytes} (head : ascii "ERROR :" <+: line) :
      Origin server (.refuse fd error) line
  | command {fd : Int} {client : Client} {message : Message} {line : Bytes}
      (found : server.findClientByFd fd = some client) (registered : client.registered = true)
      (head : ascii ":" ++ Reply.clientPrefix client ++ ascii " " <+: line) :
      Origin server (.command fd message) line
  | disconnection {fd : Int} {client : Client} {reason line : Bytes}
      (found : server.findClientByFd fd = some client) (registered : client.registered = true)
      (head : ascii ":" ++ Reply.clientPrefix client ++ ascii " " <+: line) :
      Origin server (.disconnect fd reason) line

/-- The command words of all lines of the server. -/
theorem safe_word : ∀ word ∈ noticeCommands ++
    [ascii "CAP", ascii "PONG", ascii "INVITE", ascii "QUIT"],
    IrcUtil.isSafeToken word = true := by
  decide

theorem safe_notice {word : Bytes} (listed : word ∈ noticeCommands) :
    IrcUtil.isSafeToken word = true :=
  safe_word word (List.mem_append_left _ listed)

theorem safe_answer {word : Bytes} (listed : word ∈ [ascii "CAP", ascii "PONG"]) :
    IrcUtil.isSafeToken word = true := by
  apply safe_word word
  simp only [List.mem_cons, List.not_mem_nil, or_false] at listed
  rcases listed with rfl | rfl
  · decide
  · decide

theorem CommandLine.cleanLine {server : Server} {fd : Int} {client : Client} {message : Message}
    {posting : Posting} (line : CommandLine server fd client message posting)
    (safeServer : IrcUtil.isSafeToken server.serverName = true) (named : WellNamed client) :
    CleanLine posting.message := by
  cases line with
  | numeric listed parameters =>
      exact Reply.cleanLine_numeric safeServer named.safe_targetName
        (List.mem_append_right _ listed) parameters
  | answer listed parameters =>
      exact Reply.cleanLine_command safeServer (safe_answer listed) parameters
  | notice _ _ _ listed parameters =>
      exact Reply.cleanLine_command named.safe_clientPrefix (safe_notice listed) parameters
  | privmsg _ _ _ _ _ _ =>
      exact Reply.cleanLine_command named.safe_clientPrefix
        (safe_word (ascii "PRIVMSG") (by decide)) _
  | invite _ _ _ _ _ _ =>
      exact Reply.cleanLine_command named.safe_clientPrefix
        (safe_word (ascii "INVITE") (by decide)) _

theorem CommandLine.origin {server : Server} {fd : Int} {client : Client} {message : Message}
    {posting : Posting} (line : CommandLine server fd client message posting)
    (serverName : server.serverName = ascii "ircserv.local") (named : WellNamed client)
    (found : server.findClientByFd fd = some client) :
    Origin server (.command fd message) posting.message := by
  have safeServer : IrcUtil.isSafeToken (ascii "ircserv.local") = true := by decide
  cases line with
  | numeric listed parameters =>
      rcases Reply.code_bytes _ (List.mem_append_right _ listed) with ⟨small, _⟩
      rw [serverName]
      exact Origin.server (Reply.head_numeric safeServer named.safe_targetName small parameters)
  | answer listed parameters =>
      rw [Reply.serverPrefix, serverName]
      exact Origin.server (Reply.head_command safeServer (safe_answer listed) parameters)
  | notice registered _ _ listed parameters =>
      exact Origin.command found registered
        (Reply.head_command named.safe_clientPrefix (safe_notice listed) parameters)
  | privmsg registered _ _ _ _ _ =>
      exact Origin.command found registered (Reply.head_command named.safe_clientPrefix
        (safe_word (ascii "PRIVMSG") (by decide)) _)
  | invite registered _ _ _ _ _ =>
      exact Origin.command found registered (Reply.head_command named.safe_clientPrefix
        (safe_word (ascii "INVITE") (by decide)) _)

theorem WellNamed.of_identity {client other : Client} (same : other.identity = client.identity)
    (named : WellNamed client) : WellNamed other := by
  have nickname : other.nickname = client.nickname := Client.nickname_of_identity same
  have username : other.username = client.username := by
    have fields := congrArg Client.username same
    exact fields
  have hostname : other.hostname = client.hostname := by
    have fields := congrArg Client.hostname same
    exact fields
  exact ⟨nickname ▸ named.nickname, username ▸ named.username, hostname ▸ named.hostname⟩

namespace Server

variable {server : Server} {fd : Int} {client : Client}

/-- Runs whose connections come from dotted addresses. -/
def dottedPeers (_ : Server) (step : ServerStep) : Prop :=
  acceptsOnly (fun address => isDotted address = true) step

theorem wellNamed_of_reaches (reached : stepSystem.Reaches dottedPeers server)
    (found : server.findClientByFd fd = some client) : WellNamed client := by
  have sound := step_reachable_sound reached.reachable found
  constructor
  case nickname =>
    intro given
    exact (reachable_nicknameIndex reached.reachable).nickname_valid fd client found given
  case username =>
    intro given
    cases received : client.userReceived with
    | true => exact sound.username received
    | false => exact absurd (sound.blank received).1 given
  case hostname => exact hostname_of_reaches reached found

theorem safe_serverName (reached : stepSystem.Reaches dottedPeers server) :
    IrcUtil.isSafeToken server.serverName = true := by
  rw [step_reachable_serverName reached.reachable]
  decide

/-- The five lines of a welcome are numeric replies. -/
theorem numeric_of_welcome {completed : Client} {posting : Posting}
    (listed : posting ∈ server.welcomePostings completed) :
    ∃ code ∈ welcomeCodes, ∃ parameters,
      posting = ⟨completed.fd, Reply.numeric server.serverName completed code parameters⟩ := by
  simp only [welcomePostings, List.mem_cons, List.not_mem_nil, or_false] at listed
  rcases listed with rfl | rfl | rfl | rfl | rfl
  · exact ⟨Numeric.rplWelcome, by decide, _, rfl⟩
  · exact ⟨Numeric.rplYourHost, by decide, _, rfl⟩
  · exact ⟨Numeric.rplCreated, by decide, _, rfl⟩
  · exact ⟨Numeric.rplMyInfo, by decide, _, rfl⟩
  · exact ⟨Numeric.errNoMotd, by decide, _, rfl⟩

/-- A client that shares a channel with another one is registered. -/
theorem registered_of_sharesChannel (consistent : server.core.Consistent)
    (found : server.findClientByFd fd = some client) {other : Int}
    (shares : server.sharesChannel fd other = true) : client.registered = true := by
  rcases (sharesChannel_iff consistent fd other).mp shares with ⟨_, key, joined, _⟩
  rcases (consistent.isMember_iff fd key).mpr joined with ⟨channel, stored, member⟩
  exact consistent.member_registered key channel fd client.withoutBuffers stored member
    (core_clients_of_find server fd found)

theorem cleanLine_error (error : InputError) : CleanLine error.text := by
  cases error with
  | lineTooLong => exact ⟨by decide, cleanText_of_all rfl⟩
  | bufferLimit => exact ⟨by decide, cleanText_of_all rfl⟩

/-- Every line of a step is clean and says where it comes from. -/
theorem stepLine_integrity (reached : stepSystem.Reaches dottedPeers server)
    {step : ServerStep} (ready : server.ready step = true) (allowed : dottedPeers server step)
    {posting : Posting} (line : StepLine server step posting) :
    CleanLine posting.message ∧ Origin server step posting.message := by
  have serverName := step_reachable_serverName reached.reachable
  have safeServer := safe_serverName reached
  cases line with
  | command found line =>
      have named := wellNamed_of_reaches reached found
      exact ⟨line.cleanLine safeServer named, line.origin serverName named found⟩
  | @welcome fd _ _ message _ found own stored listed =>
      have next : stepSystem.Reaches dottedPeers (server.advance (.command fd message)) :=
        TransitionSystem.Reaches.next reached allowed ⟨ready, rfl⟩
      rcases stored with ⟨record, foundRecord, identity⟩
      have named := (wellNamed_of_reaches next foundRecord).of_identity identity.symm
      rcases numeric_of_welcome listed with ⟨code, codeListed, parameters, rfl⟩
      rcases Reply.code_bytes code (List.mem_append_left _ codeListed) with ⟨small, _⟩
      refine ⟨Reply.cleanLine_numeric safeServer named.safe_targetName
        (List.mem_append_left _ codeListed) parameters, ?_⟩
      have head := Reply.head_numeric safeServer named.safe_targetName small parameters
      rw [serverName] at head ⊢
      exact Origin.server head
  | refused fd error =>
      refine ⟨cleanLine_error error, Origin.error ?_⟩
      cases error with
      | lineTooLong => exact ⟨ascii "Input line too long", rfl⟩
      | bufferLimit => exact ⟨ascii "Receive buffer limit exceeded", rfl⟩
  | quit found shares =>
      have consistent := step_reachable_consistent reached.reachable
      have named := wellNamed_of_reaches reached found
      have safeQuit := safe_word (ascii "QUIT") (by decide)
      refine ⟨Reply.cleanLine_command named.safe_clientPrefix safeQuit _, ?_⟩
      exact Origin.disconnection found (registered_of_sharesChannel consistent found shares)
        (Reply.head_command named.safe_clientPrefix safeQuit _)

/-! ## Prefixes of other clients -/

/-- A line with a client's prefix comes from this client. -/
theorem subject_of_prefix (reached : stepSystem.Reaches dottedPeers server) {step : ServerStep}
    {line : Bytes} (origin : Origin server step line) {other : Int} {record : Client}
    (foundOther : server.findClientByFd other = some record)
    (prefixed : ascii ":" ++ Reply.clientPrefix record ++ ascii " " <+: line) :
    step.subject = some other := by
  have namedOther := wellNamed_of_reaches reached foundOther
  have index := reachable_nicknameIndex reached.reachable
  -- Up to the first space both prefixes are the same token.
  have token : ∀ {name : Bytes}, byte ' ' ∉ name → ascii ":" ++ name ++ ascii " " <+: line →
      name = Reply.clientPrefix record := by
    intro name outside head
    have colonOutside : ∀ {name : Bytes}, byte ' ' ∉ name → byte ' ' ∉ ascii ":" ++ name := by
      intro name outside listed
      rcases List.mem_append.mp listed with colon | listed
      · exact absurd (List.mem_singleton.mp colon) (by decide)
      · exact outside listed
    have same := eq_of_terminated (colonOutside outside)
      (colonOutside (noSpace_of_safe namedOther.safe_clientPrefix)) head prefixed
    exact List.append_cancel_left same
  have sameClient : ∀ {fd : Int} {client : Client}, server.findClientByFd fd = some client →
      client.registered = true → ascii ":" ++ Reply.clientPrefix client ++ ascii " " <+: line →
      fd = other := by
    intro fd client found registered head
    have named := wellNamed_of_reaches reached found
    have sameName := targetName_eq_of_prefix named namedOther
      (token (noSpace_of_safe named.safe_clientPrefix) head)
    have given : client.nickname ≠ [] := by
      have complete := (step_reachable_sound reached.reachable found).registered
      intro empty
      simp only [Client.account, Account.complete, registered, empty] at complete
      simp at complete
    have valid := isNicknameByte_of_valid (named.nickname given)
    have star : byte '*' ∉ Reply.targetName client := by
      intro listed
      simp only [Reply.targetName, List.isEmpty_iff, if_neg given] at listed
      exact absurd rfl (isNicknameByte_avoids (valid.2 _ listed)).2.2.2.1
    have givenOther : record.nickname ≠ [] := by
      intro empty
      apply star
      rw [sameName]
      simp [Reply.targetName, empty, ascii]
    simp only [Reply.targetName, List.isEmpty_iff, if_neg given, if_neg givenOther] at sameName
    exact index.nickname_unique fd other client record found foundOther given givenOther
      (congrArg _ sameName)
  cases origin with
  | server head =>
      exfalso
      have same := token (show byte ' ' ∉ ascii "ircserv.local" by decide) head
      have marked : byte '!' ∈ Reply.clientPrefix record := by
        rw [namedOther.clientPrefix_eq]
        simp [ascii]
      rw [← same] at marked
      exact absurd marked (by decide)
  | error head =>
      exfalso
      rcases head with ⟨rest, rfl⟩
      rcases prefixed with ⟨tail, same⟩
      have first : some (byte ':') = some (byte 'E') := congrArg List.head? same
      exact absurd first (by decide)
  | command found registered head => exact congrArg some (sameClient found registered head)
  | disconnection found registered head => exact congrArg some (sameClient found registered head)

/-! ## Runs -/

theorem reaches_of_performAll {password serverStartTime : Bytes} {listenFd : Int}
    {steps : List ServerStep}
    (performed : stepMachine.performAll steps (fresh password serverStartTime listenFd) =
      some server)
    (dotted : ∀ step ∈ steps, acceptsOnly (fun address => isDotted address = true) step) :
    stepSystem.Reaches dottedPeers server :=
  Machine.reaches_performAll (.start ⟨password, serverStartTime, listenFd, rfl⟩) performed
    (Machine.everyStep_of_forall dotted _)

/-- A line of a run, with the step that posted it and the state before this step. -/
def ComesFrom (start : Server) (steps : List ServerStep) (line : Bytes) : Prop :=
  ∃ early step late between, steps = early ++ step :: late ∧
    stepMachine.performAll early start = some between ∧ Origin between step line ∧
    ∀ other record, between.findClientByFd other = some record →
      ascii ":" ++ Reply.clientPrefix record ++ ascii " " <+: line → step.subject = some other

/-- The bytes of one connection: what was sent and what still waits are whole lines, each
of them clean and with an origin in the run. -/
structure WholeLines (start : Server) (steps : List ServerStep) (server : Server) (fd : Int)
    (client : Client) : Prop where
  stream : sentBytes fd (sinceAccepted fd server.history) ++ client.sendBuffer =
    (appendedLines fd (sinceAccepted fd server.history)).flatMap (· ++ crlf)
  lines (line : Bytes) : line ∈ queuedLines fd (sinceAccepted fd server.history) →
    CleanLine line ∧ ComesFrom start steps line

theorem ComesFrom.concat {start : Server} {steps : List ServerStep} {line : Bytes}
    (comes : ComesFrom start steps line) (step : ServerStep) :
    ComesFrom start (steps ++ [step]) line := by
  rcases comes with ⟨early, here, late, between, rfl, rest⟩
  exact ⟨early, here, late ++ [step], between, by simp, rest⟩

theorem wholeLines_step {start between : Server} {steps : List ServerStep} {step : ServerStep}
    (performed : stepMachine.performAll steps start = some between)
    (reached : stepSystem.Reaches dottedPeers between) (ready : between.ready step = true)
    (allowed : dottedPeers between step)
    (before : ∀ client, between.findClientByFd fd = some client →
      WholeLines start steps between fd client)
    {next : Client} (foundNext : (between.advance step).findClientByFd fd = some next) :
    WholeLines start (steps ++ [step]) (between.advance step) fd next := by
  rcases advance_events (step_reachable_consistent reached.reachable) ready with
    ⟨events, stepEvents⟩
  have integrity : ∀ line ∈ queuedLines fd events,
      CleanLine line ∧ ComesFrom start (steps ++ [step]) line := by
    intro line listed
    rcases stepLine_integrity reached ready allowed (stepEvents.lines fd line listed) with
      ⟨clean, origin⟩
    refine ⟨clean, steps, step, [], between, rfl, performed, origin, ?_⟩
    intro other record foundOther prefixed
    exact subject_of_prefix reached origin foundOther prefixed
  cases found : between.findClientByFd fd with
  | none =>
      rcases stepEvents.entered fd next found foundNext with ⟨empty, entering⟩
      have only := (stepEvents.accepted fd entering).2
      have since : sinceAccepted fd (between.advance step).history = [] := by
        rw [stepEvents.history, only]
        exact sinceAccepted_accepted fd _
      constructor
      case stream =>
        rw [since, empty]
        rfl
      case lines =>
        intro line listed
        rw [since] at listed
        simp [queuedLines] at listed
  | some client =>
      have quiet : .accepted fd ∉ events := by
        intro entering
        rcases (stepEvents.accepted fd entering).1 with ⟨peerAddress, rfl⟩
        have missing := (findClientByFd_of_core between fd).mp (core_clients_of_ready ready)
        simp [missing] at found
      have since : sinceAccepted fd (between.advance step).history =
          sinceAccepted fd between.history ++ events := by
        rw [stepEvents.history]
        exact sinceAccepted_append _ quiet
      have whole := before client found
      constructor
      case stream =>
        have terminated : (appendedLines fd events).flatMap withCrlf =
            (appendedLines fd events).flatMap (· ++ crlf) := by
          apply List.flatMap_congr
          intro line listed
          have clean := (integrity line (mem_queuedLines_of_appended listed)).1
          exact withCrlf_of_clean clean.clean
        have gained := stepEvents.buffers fd client next found foundNext
        rw [since, sentBytes_append, appendedLines_append, List.flatMap_append, List.append_assoc,
          gained, ← List.append_assoc, whole.stream, terminated]
      case lines =>
        intro line listed
        rw [since, queuedLines_append] at listed
        rcases List.mem_append.mp listed with earlier | new
        · rcases whole.lines line earlier with ⟨clean, comes⟩
          exact ⟨clean, comes.concat step⟩
        · exact integrity line new

/-- No reply to or about a live client is empty. -/
structure RepliesNonempty (server : Server) (client : Client) : Prop where
  numeric (code : Nat) (parameters : Bytes) : code ≤ 999 →
    Reply.numeric server.serverName client code parameters ≠ []
  command (word parameters : Bytes) : IrcUtil.isSafeToken word = true →
    Reply.command (Reply.clientPrefix client) word parameters ≠ [] ∧
      Reply.command (Reply.serverPrefix server.serverName) word parameters ≠ []

theorem repliesNonempty_of_reaches (reached : stepSystem.Reaches dottedPeers server)
    (found : server.findClientByFd fd = some client) : RepliesNonempty server client := by
  have named := wellNamed_of_reaches reached found
  have safeServer := safe_serverName reached
  constructor
  case numeric =>
    intro code parameters small
    rw [Reply.numeric_eq safeServer named.safe_targetName small]
    simp [ascii]
  case command =>
    intro word parameters safeWord
    exact ⟨(Reply.cleanLine_command named.safe_clientPrefix safeWord parameters).nonempty,
      (Reply.cleanLine_command safeServer safeWord parameters).nonempty⟩

def alicesSteps : List ServerStep :=
  enterSteps 4 (ascii "alice") (ascii "#Room") ++ enterSteps 5 (ascii "bob") (ascii "#room")

end Server

end IrcPlatform.Irc
