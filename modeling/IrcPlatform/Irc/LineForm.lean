import IrcPlatform.Irc.LineIntegrity
import IrcPlatform.Irc.Parameters

/-!
# The form of a line

Every line that the server queues is a prefix that may be missing, one of the words the
server uses, and a rest that starts with a space where it is not empty. The server's own
parser reads such a line as that prefix, that word and the parameters of the rest.
-/

namespace IrcPlatform.Irc

open Std

/-- The words of all lines: the digits of a code, or a command. -/
def lineWords : List Bytes :=
  (welcomeCodes ++ replyCodes).map Reply.threeDigits ++ noticeCommands ++
    [ascii "CAP", ascii "PONG", ascii "INVITE", ascii "QUIT", ascii "ERROR"]

structure LineForm (line linePrefix word rest : Bytes) : Prop where
  assembled : line = (if linePrefix.isEmpty then [] else byte ':' :: (linePrefix ++ [byte ' '])) ++
    (word ++ rest)
  linePrefix : linePrefix ≠ [] → IrcUtil.isSafeToken linePrefix = true
  word : word ∈ lineWords
  ends : EndsWord rest
  clean : CleanText rest

/-- The words are printable and upper case. -/
theorem lineWords_printable : ∀ word ∈ lineWords, word ≠ [] ∧ IrcUtil.toUpperAscii word = word ∧
    ∀ c ∈ word, byte ' ' < c ∧ c < 0x80 ∧ c ≠ byte ':' := by
  have checked : lineWords.all (fun word => word != [] && IrcUtil.toUpperAscii word == word &&
      word.all fun c => decide (byte ' ' < c ∧ c < 0x80 ∧ c ≠ byte ':')) = true := by
    decide +kernel
  simpa only [List.all_eq_true, Bool.and_eq_true, bne_iff_ne, beq_iff_eq, decide_eq_true_eq,
    and_assoc] using checked

theorem isMiddle_lineWord {word : Bytes} (listed : word ∈ lineWords) : isMiddle word = true := by
  rcases lineWords_printable word listed with ⟨nonempty, _, printable⟩
  rw [isMiddle_iff]
  refine ⟨nonempty, ?_, ?_⟩
  · intro first
    exact (printable _ (List.mem_of_head? first)).2.2 rfl
  · intro space
    exact absurd (printable _ space).1 (by decide)

theorem LineForm.parse {line linePrefix word rest : Bytes}
    (form : LineForm line linePrefix word rest) :
    Parser.parse line = (Parser.parseParams Parser.maxParams rest).map fun params =>
      { linePrefix := linePrefix, command := word, params := params } := by
  rcases lineWords_printable word form.word with ⟨_, upper, printable⟩
  have wordVisible : 0 ∉ word := by
    intro nul
    exact absurd (printable 0 nul).1 (by decide)
  have restVisible : 0 ∉ rest := fun nul => (form.clean 0 nul).2.2 rfl
  have middle := isMiddle_lineWord form.word
  rw [form.assembled]
  split
  next missing =>
    have unnamed : linePrefix = [] := by simpa using missing
    rw [unnamed, List.nil_append, Parser.parse_word middle form.ends, upper]
    rw [List.mem_append, not_or]
    exact ⟨wordVisible, restVisible⟩
  next given =>
    have named : linePrefix ≠ [] := by simpa using given
    have safe := form.linePrefix named
    rcases isMiddle_iff.mp middle with ⟨nonempty, _, spaceless⟩
    have parsed := Parser.parse_prefix named (noSpace_of_safe safe) nonempty spaceless form.ends
    rw [upper] at parsed
    simp only [List.cons_append, List.append_assoc, List.nil_append] at parsed ⊢
    apply parsed
    simp only [List.mem_cons, List.mem_append, not_or]
    refine ⟨by decide, ?_, by decide, wordVisible, restVisible⟩
    intro nul
    exact (cleanText_of_safe safe 0 nul).2.2 rfl

/-! ## Replies -/

theorem endsWord_trailing (parameters : Bytes) : EndsWord (Reply.trailing parameters) := by
  rw [Reply.trailing]
  split
  · exact Or.inl rfl
  · exact Or.inr ⟨_, rfl⟩

theorem lineForm_numeric {serverName : Bytes} {target : Client} {code : Nat}
    (safeServer : IrcUtil.isSafeToken serverName = true)
    (safeTarget : IrcUtil.isSafeToken (Reply.targetName target) = true)
    (listed : code ∈ welcomeCodes ++ replyCodes) (parameters : Bytes) :
    LineForm (Reply.numeric serverName target code parameters) serverName
      (Reply.threeDigits code)
      (byte ' ' :: (Reply.targetName target ++ Reply.trailing parameters)) := by
  rcases Reply.code_bytes code listed with ⟨small, _⟩
  have given : serverName.isEmpty = false := by simpa using nonempty_of_safe safeServer
  constructor
  case assembled =>
    rw [Reply.numeric_eq safeServer safeTarget small, given]
    simp [ascii, byte]
  case linePrefix => exact fun _ => safeServer
  case word =>
    exact List.mem_append_left _ (List.mem_append_left _ (List.mem_map_of_mem listed))
  case ends => exact Or.inr ⟨_, rfl⟩
  case clean =>
    have space : CleanText [byte ' '] := cleanText_of_all rfl
    exact cleanText_append space (cleanText_append (cleanText_of_safe safeTarget)
      (Reply.cleanText_trailing parameters))

theorem lineForm_command {linePrefix word : Bytes}
    (safePrefix : IrcUtil.isSafeToken linePrefix = true) (listed : word ∈ lineWords)
    (safeWord : IrcUtil.isSafeToken word = true) (parameters : Bytes) :
    LineForm (Reply.command linePrefix word parameters) linePrefix word
      (Reply.trailing parameters) := by
  have given : linePrefix.isEmpty = false := by simpa using nonempty_of_safe safePrefix
  constructor
  case assembled =>
    rw [Reply.command_eq safePrefix safeWord, given]
    simp [ascii, byte]
  case linePrefix => exact fun _ => safePrefix
  case word => exact listed
  case ends => exact endsWord_trailing parameters
  case clean => exact Reply.cleanText_trailing parameters

theorem lineForm_error (error : InputError) :
    ∃ rest, LineForm error.text [] (ascii "ERROR") rest := by
  cases error with
  | lineTooLong =>
      refine ⟨ascii " :Input line too long", rfl, fun given => absurd rfl given, by decide, ?_,
        cleanText_of_all rfl⟩
      exact Or.inr ⟨_, rfl⟩
  | bufferLimit =>
      refine ⟨ascii " :Receive buffer limit exceeded", rfl, fun given => absurd rfl given,
        by decide, ?_, cleanText_of_all rfl⟩
      exact Or.inr ⟨_, rfl⟩

theorem safe_lineWord : ∀ word ∈ lineWords, IrcUtil.isSafeToken word = true := by
  decide +kernel

/-- A numeric reply has its form, or a name that is not safe made it empty. -/
theorem numeric_form {serverName : Bytes} {target : Client} {code : Nat}
    (listed : code ∈ welcomeCodes ++ replyCodes) (parameters : Bytes) :
    Reply.numeric serverName target code parameters = [] ∨
      LineForm (Reply.numeric serverName target code parameters) serverName
        (Reply.threeDigits code)
        (byte ' ' :: (Reply.targetName target ++ Reply.trailing parameters)) := by
  cases safeServer : IrcUtil.isSafeToken serverName with
  | false =>
      left
      simp only [Reply.numeric, safeServer, Bool.not_false, if_true, ite_self]
  | true =>
      cases safeTarget : IrcUtil.isSafeToken (Reply.targetName target) with
      | false =>
          left
          rw [Reply.targetName] at safeTarget
          simp only [Reply.numeric, safeTarget, Bool.not_false, if_true, ite_self]
      | true => exact Or.inr (lineForm_numeric safeServer safeTarget listed parameters)

/-- The same for a relayed command. -/
theorem command_form {word : Bytes} (listed : word ∈ lineWords) (linePrefix parameters : Bytes) :
    Reply.command linePrefix word parameters = [] ∨
      LineForm (Reply.command linePrefix word parameters) linePrefix word
        (Reply.trailing parameters) := by
  have safeWord := safe_lineWord word listed
  cases given : linePrefix.isEmpty with
  | true =>
      right
      have unnamed : linePrefix = [] := by simpa using given
      subst unnamed
      constructor
      case assembled =>
        simp only [Reply.command, safeWord, List.isEmpty_nil, Bool.not_true, Bool.false_and,
          Bool.false_eq_true, if_false, if_true, List.nil_append, Reply.trailing]
      case linePrefix => exact fun named => absurd rfl named
      case word => exact listed
      case ends => exact endsWord_trailing parameters
      case clean => exact Reply.cleanText_trailing parameters
  | false =>
      cases safe : IrcUtil.isSafeToken linePrefix with
      | true => exact Or.inr (lineForm_command safe listed safeWord parameters)
      | false =>
          left
          simp only [Reply.command, safeWord, safe, given, Bool.not_true, Bool.not_false,
            Bool.and_true, Bool.false_eq_true, if_false, if_true]

theorem LineForm.cleanText {line linePrefix word rest : Bytes}
    (form : LineForm line linePrefix word rest) : CleanText line := by
  have cleanWord : CleanText word := cleanText_of_safe (safe_lineWord word form.word)
  have space : CleanText [byte ' '] := cleanText_of_all rfl
  have colon : CleanText [byte ':'] := cleanText_of_all rfl
  rw [form.assembled]
  apply cleanText_append _ (cleanText_append cleanWord form.clean)
  split
  · exact cleanText_nil
  next given =>
    have safe := form.linePrefix (by simpa using given)
    exact cleanText_append colon (cleanText_append (cleanText_of_safe safe) space)

/-- A connection that the step accepts has a dotted address. -/
def ServerStep.dotted : ServerStep → Bool
  | accept _ peerAddress => isDotted peerAddress
  | receive _ _ | consume _ _ | command _ _ | refuse _ _ | reserve _ | flush _ _
  | takeReservations | disconnect _ _ => true

namespace Server

variable {server : Server}

theorem reaches_of_dotted {password serverStartTime : Bytes} {listenFd : Int}
    {steps : List ServerStep}
    (performed : stepMachine.performAll steps (fresh password serverStartTime listenFd) =
      some server)
    (dotted : steps.all (·.dotted) = true) : stepSystem.Reaches dottedPeers server := by
  apply reaches_of_performAll performed
  rintro step listed fd peerAddress rfl
  exact List.all_eq_true.mp dotted _ listed

theorem reaches_alicesRoom_dotted : stepSystem.Reaches dottedPeers alicesRoom := by
  have performs : (stepMachine.performAll alicesSteps
      (fresh (ascii "secret") (ascii "today") 3)).isSome = true := by decide +kernel
  exact reaches_of_dotted (Machine.performAll_eq_performOr performs) (by decide)

theorem commandLine_form {fd : Int} {client : Client} {message : Message} {posting : Posting}
    (line : CommandLine server fd client message posting) : posting.message = [] ∨
      ∃ linePrefix word rest, LineForm posting.message linePrefix word rest := by
  have relayed {word parameters : Bytes} (listed : word ∈ lineWords) (linePrefix : Bytes) :
      Reply.command linePrefix word parameters = [] ∨
        ∃ named command rest, LineForm (Reply.command linePrefix word parameters) named command
          rest :=
    (command_form listed linePrefix parameters).imp_right fun form => ⟨_, _, _, form⟩
  cases line with
  | numeric listed parameters =>
      exact (numeric_form (List.mem_append_right _ listed) parameters).imp_right
        fun form => ⟨_, _, _, form⟩
  | answer listed parameters =>
      apply relayed
      apply List.mem_append_right
      simp only [List.mem_cons, List.not_mem_nil, or_false] at listed ⊢
      rcases listed with same | same
      · exact Or.inl same
      · exact Or.inr (Or.inl same)
  | notice _ _ _ listed parameters =>
      exact relayed (List.mem_append_left _ (List.mem_append_right _ listed)) _
  | privmsg _ _ _ _ _ _ => exact @relayed (ascii "PRIVMSG") _ (by decide) _
  | invite _ _ _ _ _ _ => exact @relayed (ascii "INVITE") _ (by decide) _

/-- Whatever the clients are called: every line has a form or is empty. -/
theorem stepLine_form {step : ServerStep} {posting : Posting}
    (line : StepLine server step posting) : posting.message = [] ∨
      ∃ linePrefix word rest, LineForm posting.message linePrefix word rest := by
  cases line with
  | command _ line => exact commandLine_form line
  | welcome _ _ _ listed =>
      rcases numeric_of_welcome listed with ⟨code, codeListed, parameters, rfl⟩
      exact (numeric_form (List.mem_append_left _ codeListed) parameters).imp_right
        fun form => ⟨_, _, _, form⟩
  | refused fd error =>
      rcases lineForm_error error with ⟨rest, form⟩
      exact Or.inr ⟨_, _, _, form⟩
  | @quit fd other client reason _ _ =>
      have form := @command_form (ascii "QUIT") (by decide) (Reply.clientPrefix client)
      exact (form _).imp_right fun form => ⟨_, _, _, form⟩

theorem cleanText_of_stepLine {step : ServerStep} {posting : Posting}
    (line : StepLine server step posting) : CleanText posting.message := by
  rcases stepLine_form line with empty | ⟨linePrefix, word, rest, form⟩
  · rw [empty]
    exact cleanText_nil
  · exact form.cleanText

theorem lineForm_of_stepLine (reached : stepSystem.Reaches dottedPeers server)
    {step : ServerStep} (ready : server.ready step = true) (allowed : dottedPeers server step)
    {posting : Posting} (line : StepLine server step posting) :
    ∃ linePrefix word rest, LineForm posting.message linePrefix word rest :=
  (stepLine_form line).resolve_left (stepLine_integrity reached ready allowed line).1.nonempty

/-! ## Runs -/

/-- What holds of every line that a step can post holds of every line of a run. -/
theorem of_queued {property : Int → Bytes → Prop}
    (posted : ∀ (before : Server) (step : ServerStep) (posting : Posting),
      stepSystem.Reaches dottedPeers before → before.ready step = true →
      dottedPeers before step → StepLine before step posting →
      property posting.fd posting.message)
    (reached : stepSystem.Reaches dottedPeers server) {fd : Int} {line : Bytes}
    (listed : line ∈ queuedLines fd server.history) : property fd line := by
  induction reached with
  | start initial =>
      rcases initial with ⟨password, serverStartTime, listenFd, rfl⟩
      simp [fresh, queuedLines] at listed
  | @next before after step run allowed advanced ih =>
      rcases advanced with ⟨ready, rfl⟩
      rcases advance_events (step_reachable_consistent run.reachable) ready with
        ⟨events, stepEvents⟩
      change line ∈ queuedLines fd (before.advance step).history at listed
      rw [stepEvents.history, queuedLines_append] at listed
      rcases List.mem_append.mp listed with earlier | new
      · exact ih earlier
      · exact posted before step ⟨fd, line⟩ run ready allowed (stepEvents.lines fd line new)

theorem lineForm_of_queued (reached : stepSystem.Reaches dottedPeers server) {fd : Int}
    {line : Bytes} (listed : line ∈ queuedLines fd server.history) :
    ∃ linePrefix word rest, LineForm line linePrefix word rest :=
  @of_queued server (fun _ line => ∃ linePrefix word rest, LineForm line linePrefix word rest)
    (fun _ _ _ run ready allowed line => lineForm_of_stepLine run ready allowed line)
    reached fd line listed

end Server

end IrcPlatform.Irc
