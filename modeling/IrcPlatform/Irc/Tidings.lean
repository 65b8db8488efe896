import IrcPlatform.Irc.Confirmations
import IrcPlatform.Library.Rosters
import IrcPlatform.Library.Splitting

/-!
# What the lines tell a client

A client that keeps lists of the members of its channels reads them off the lines it gets: its
own nickname off the welcome, the names in a channel off the reply that follows its JOIN,
and every later change off the JOIN, PART, KICK, QUIT and NICK lines of the others. `tiding` is
what a line says of this, read with the server's own parser.
-/

namespace IrcPlatform.Irc

open Std

/-- The nickname in the prefix of a client; the prefix of the server has none. -/
def nicknameOf (linePrefix : Bytes) : Option Bytes :=
  if linePrefix.contains (byte '!') then some (linePrefix.takeWhile (· != byte '!')) else none

/-- A nickname without the mark of an operator. -/
def bareName (name : Bytes) : Bytes :=
  if name.head? = some (byte '@') then name.tail else name

/-- The nicknames in the text of a names reply. -/
def listedNames (text : Bytes) : List Bytes := (text.splitOn (byte ' ')).map bareName

/-- What a line of a client tells. -/
def clientTiding (nickname command : Bytes) (params : List Bytes) :
    Option (Tiding Bytes Bytes) :=
  match params with
  | [] => none
  | first :: more =>
      if command = ascii "JOIN" then some (.entered first nickname)
      else if command = ascii "PART" then some (.left first nickname)
      else if command = ascii "KICK" then more.head?.map (.left first)
      else if command = ascii "QUIT" then some (.gone nickname)
      else if command = ascii "NICK" then some (.renamed nickname first)
      else none

/-- What a line of the server tells. -/
def serverTiding (command : Bytes) (params : List Bytes) : Option (Tiding Bytes Bytes) :=
  if command = ascii "001" then params.head?.map .named
  else if command = ascii "353" then
    match params with
    | [_, _, channel, names] => some (.listed channel (listedNames names))
    | _ => none
  else if command = ascii "366" then some .listedAll
  else none

def tidingOf (linePrefix command : Bytes) (params : List Bytes) : Option (Tiding Bytes Bytes) :=
  match nicknameOf linePrefix with
  | some nickname => clientTiding nickname command params
  | none => serverTiding command params

def tiding (line : Bytes) : Option (Tiding Bytes Bytes) :=
  (Parser.parse line).bind fun message =>
    tidingOf message.linePrefix message.command message.params

/-! ## Texts behind words -/

theorem sanitized_of_clean {text : Bytes} (clean : CleanText text) :
    IrcUtil.sanitizeMessageText text = text := by
  apply List.filter_eq_self.mpr
  intro c listed
  rcases clean c listed with ⟨return_, feed, nul⟩
  simp [return_, feed, nul]

theorem sanitized_append (first second : Bytes) :
    IrcUtil.sanitizeMessageText (first ++ second) =
      IrcUtil.sanitizeMessageText first ++ IrcUtil.sanitizeMessageText second :=
  List.filter_append ..

theorem sanitized_behindColon (text : Bytes) :
    IrcUtil.sanitizeMessageText (behindColon text) =
      behindColon (IrcUtil.sanitizeMessageText text) :=
  sanitized_append (ascii " :") text

theorem cleanText_spaced {words : List Bytes} (clean : ∀ word ∈ words, CleanText word) :
    CleanText (spaced words) := by
  intro c listed
  rcases List.mem_flatMap.mp listed with ⟨word, inside, inWord⟩
  rcases List.mem_cons.mp inWord with rfl | later
  · decide
  · exact clean word inside c later

/-- The end of a reply that gives only a text. -/
theorem trailing_text (text : Bytes) :
    Reply.trailing (ascii ":" ++ text) = behindColon (IrcUtil.sanitizeMessageText text) := by
  have given : IrcUtil.sanitizeMessageText (ascii ":" ++ text) =
      byte ':' :: IrcUtil.sanitizeMessageText text := sanitized_append (ascii ":") text
  rw [Reply.trailing, given]
  rfl

/-- The end of a reply that gives words and a text. -/
theorem trailing_spaced {first : Bytes} {words : List Bytes}
    (safe : ∀ word ∈ first :: words, IrcUtil.isSafeToken word = true) (text : Bytes) :
    Reply.trailing (first ++ (spaced words ++ behindColon text)) =
      spaced (first :: words) ++ behindColon (IrcUtil.sanitizeMessageText text) := by
  have clean : ∀ word ∈ first :: words, CleanText word :=
    fun word listed => cleanText_of_safe (safe word listed)
  have nonempty := nonempty_of_safe (safe first List.mem_cons_self)
  have given : IrcUtil.sanitizeMessageText (first ++ (spaced words ++ behindColon text)) =
      first ++ (spaced words ++ behindColon (IrcUtil.sanitizeMessageText text)) := by
    rw [sanitized_append, sanitized_append, sanitized_behindColon,
      sanitized_of_clean (clean first List.mem_cons_self), sanitized_of_clean (cleanText_spaced
        fun word listed => clean word (List.mem_cons_of_mem _ listed))]
  have some_ : (first ++ (spaced words ++ behindColon
      (IrcUtil.sanitizeMessageText text))).isEmpty = false := by
    simp [nonempty]
  rw [Reply.trailing, given, some_, spaced_cons]
  simp [ascii, byte]

theorem parseParams_text (room : Nat) (text : Bytes) :
    Parser.parseParams (room + 1) (behindColon text) = some [text] := by
  rw [behindColon, Parser.parseParams_space, Parser.parseParams_colon]

theorem parseParams_words {words : List Bytes} {room : Nat}
    (safe : ∀ word ∈ words, IrcUtil.isSafeToken word = true) (short : words.length < room)
    (text : Bytes) :
    Parser.parseParams room (spaced words ++ behindColon text) = some (words ++ [text]) := by
  apply Parser.parseParams_behindColon_iff.mpr
  exact ⟨fun word listed => (isSafeToken_iff_isMiddle.mp (safe word listed)).1, short⟩

theorem safe_channelName {name : Bytes} (valid : IrcUtil.isValidChannelName name = true) :
    IrcUtil.isSafeToken name = true := by
  cases name with
  | nil => simp [IrcUtil.isValidChannelName] at valid
  | cons first rest =>
      simp only [IrcUtil.isValidChannelName, Bool.and_eq_true, beq_iff_eq, List.all_eq_true,
        Bool.not_eq_true', Bool.or_eq_false_iff, beq_eq_false_iff_ne] at valid
      rcases valid with ⟨⟨_, rfl⟩, allowed⟩
      rw [isSafeToken_iff]
      refine ⟨List.cons_ne_nil _ _, by simp [byte], ?_⟩
      intro c listed
      rcases List.mem_cons.mp listed with rfl | later
      · decide
      · have safe := allowed c later
        exact ⟨safe.1.1.1.1.1.1, safe.1.1.2, safe.1.2, safe.2⟩

theorem safe_nickname {nickname : Bytes} (valid : IrcUtil.isValidNickname nickname = true) :
    IrcUtil.isSafeToken nickname = true := by
  rcases isNicknameByte_of_valid valid with ⟨nonempty, allowed⟩
  rw [isSafeToken_iff]
  refine ⟨nonempty, ?_, ?_⟩
  · intro first
    exact (isNicknameByte_avoids (allowed _ (List.mem_of_head? first))).2.1 rfl
  · intro c listed
    rcases isNicknameByte_avoids (allowed c listed) with ⟨space, _, _, _, return_, feed, nul⟩
    exact ⟨space, return_, feed, nul⟩

/-! ## Lines of clients -/

theorem LineForm.tiding {line linePrefix word rest : Bytes}
    (form : LineForm line linePrefix word rest) :
    tiding line = (Parser.parseParams Parser.maxParams rest).bind (tidingOf linePrefix word) := by
  rw [Irc.tiding, form.parse]
  cases Parser.parseParams Parser.maxParams rest with
  | none => rfl
  | some params => rfl

/-- A client whose names have passed their checks, with a nickname. -/
structure Nicknamed (client : Client) : Prop where
  named : WellNamed client
  given : client.nickname ≠ []

namespace Nicknamed

variable {client : Client} (nicknamed : Nicknamed client)
include nicknamed

theorem valid : IrcUtil.isValidNickname client.nickname = true :=
  nicknamed.named.nickname nicknamed.given

theorem targetName_eq : Reply.targetName client = client.nickname := by
  have given := nicknamed.given
  simp [Reply.targetName, given]

theorem nicknameOf_clientPrefix :
    nicknameOf (Reply.clientPrefix client) = some client.nickname := by
  have own := nicknamed.targetName_eq
  rcases clientPrefix_head client with ⟨rest, same⟩
  rw [own, List.append_assoc, List.singleton_append] at same
  have before : ∀ c ∈ client.nickname, (c != byte '!') = true := by
    intro c listed
    have avoids := (targetName_bytes nicknamed.named.nickname).2
    rw [own] at avoids
    simpa using (avoids c listed).2.2.1
  rw [nicknameOf, ← same, if_pos (by simp), List.takeWhile_append_of_pos before]
  simp

/-- What a line of a client tells, by its word and its parameters. -/
theorem tiding_command {word : Bytes} (listed : word ∈ lineWords) {parameters : Bytes}
    {params : List Bytes}
    (read : Parser.parseParams Parser.maxParams (Reply.trailing parameters) = some params) :
    tiding (Reply.command (Reply.clientPrefix client) word parameters) =
      clientTiding client.nickname word params := by
  have form := lineForm_command nicknamed.named.safe_clientPrefix listed (safe_lineWord word listed)
    parameters
  rw [form.tiding, read, Option.bind_some, tidingOf, nicknamed.nicknameOf_clientPrefix]

/-- A line with another word tells nothing. -/
theorem tiding_other {word : Bytes} (listed : word ∈ lineWords)
    (other : word ∉ [ascii "JOIN", ascii "PART", ascii "KICK", ascii "QUIT", ascii "NICK"])
    (parameters : Bytes) :
    tiding (Reply.command (Reply.clientPrefix client) word parameters) = none := by
  simp only [List.mem_cons, List.not_mem_nil, or_false, not_or] at other
  rcases other with ⟨notJoin, notPart, notKick, notQuit, notNick⟩
  have silent : ∀ params, clientTiding client.nickname word params = none := by
    intro params
    cases params with
    | nil => rfl
    | cons first more =>
        simp only [clientTiding, if_neg notJoin, if_neg notPart, if_neg notKick, if_neg notQuit,
          if_neg notNick]
  have form := lineForm_command nicknamed.named.safe_clientPrefix listed (safe_lineWord word listed)
    parameters
  rw [form.tiding]
  cases Parser.parseParams Parser.maxParams (Reply.trailing parameters) with
  | none => rfl
  | some params =>
      rw [Option.bind_some, tidingOf, nicknamed.nicknameOf_clientPrefix]
      exact silent params

theorem tiding_joinLine {channel : Channel}
    (valid : IrcUtil.isValidChannelName channel.name = true) :
    tiding (Server.joinLine client channel) = some (.entered channel.name client.nickname) := by
  have clean := cleanText_of_safe (safe_channelName valid)
  rw [Server.joinLine, nicknamed.tiding_command (by decide) (by
    rw [trailing_text, sanitized_of_clean clean]
    exact parseParams_text 14 channel.name)]
  rfl

theorem tiding_nickLine {nickname : Bytes} (valid : IrcUtil.isValidNickname nickname = true) :
    tiding (Server.nickLine client nickname) = some (.renamed client.nickname nickname) := by
  have clean := cleanText_of_safe (safe_nickname valid)
  rw [Server.nickLine, nicknamed.tiding_command (by decide) (by
    rw [trailing_text, sanitized_of_clean clean]
    exact parseParams_text 14 nickname)]
  rfl

theorem tiding_quitLine (reason : Bytes) :
    tiding (Server.quitLine client reason) = some (.gone client.nickname) := by
  rw [Server.quitLine, nicknamed.tiding_command (by decide) (by
    rw [trailing_text]
    exact parseParams_text 14 _)]
  rfl

theorem tiding_partLine {channel : Channel}
    (valid : IrcUtil.isValidChannelName channel.name = true) (reason : Bytes) :
    tiding (Server.partLine client channel reason) =
      some (.left channel.name client.nickname) := by
  have safe : ∀ word ∈ [channel.name], IrcUtil.isSafeToken word = true := by
    simpa using safe_channelName valid
  have parameters : channel.name ++ ascii " :" ++ reason =
      channel.name ++ (spaced [] ++ behindColon reason) := by
    simp [spaced, behindColon, ascii, byte]
  rw [Server.partLine, parameters, nicknamed.tiding_command (by decide) (by
    rw [trailing_spaced safe]
    exact parseParams_words safe (by simp [Parser.maxParams]) _)]
  rfl

theorem tiding_kickLine {target : Client} (targetNicknamed : Nicknamed target) {channel : Channel}
    (valid : IrcUtil.isValidChannelName channel.name = true) (reason : Bytes) :
    tiding (Server.kickLine client target channel reason) =
      some (.left channel.name target.nickname) := by
  have safe : ∀ word ∈ [channel.name, target.nickname], IrcUtil.isSafeToken word = true := by
    simp [safe_channelName valid, safe_nickname targetNicknamed.valid]
  have parameters : channel.name ++ ascii " " ++ target.nickname ++ ascii " :" ++ reason =
      channel.name ++ (spaced [target.nickname] ++ behindColon reason) := by
    simp [spaced, behindColon, ascii, byte]
  rw [Server.kickLine, parameters, nicknamed.tiding_command (by decide) (by
    rw [trailing_spaced safe]
    exact parseParams_words safe (by simp [Parser.maxParams]) _)]
  rfl

end Nicknamed

/-! ## Lines of the server -/

theorem nicknameOf_serverName : nicknameOf (ascii "ircserv.local") = none := by
  decide

theorem personal_of_serverTiding {command : Bytes} {params : List Bytes}
    {told : Tiding Bytes Bytes} (read : serverTiding command params = some told) :
    told.isPersonal = true := by
  simp only [serverTiding] at read
  split at read
  · rcases Option.map_eq_some_iff.mp read with ⟨name, _, rfl⟩
    rfl
  · split at read
    · split at read
      · rw [← Option.some.inj read]
        rfl
      · simp at read
    · split at read
      · rw [← Option.some.inj read]
        rfl
      · simp at read

/-- A line of the server tells its receiver of nobody else. -/
theorem personal_of_fromServer {line : Bytes} (fromServer : Reply.fromServer line = true)
    {told : Tiding Bytes Bytes} (read : tiding line = some told) : told.isPersonal = true := by
  rw [Reply.fromServer, List.isPrefixOf_iff_prefix] at fromServer
  rcases fromServer with ⟨rest, rfl⟩
  rcases Option.bind_eq_some_iff.mp read with ⟨message, parsed, told⟩
  have start : ascii ":ircserv.local " ++ rest =
      byte ':' :: (ascii "ircserv.local" ++ byte ' ' :: rest) := rfl
  have spaceless : byte ' ' ∉ ascii "ircserv.local" := by decide
  have kept : Parser.skipSpaces (byte ':' :: (ascii "ircserv.local" ++ byte ' ' :: rest)) =
      byte ':' :: (ascii "ircserv.local" ++ byte ' ' :: rest) := by
    simp [Parser.skipSpaces, byte]
  rw [start, Parser.parse, kept] at parsed
  split at parsed
  · simp at parsed
  · have named : (ascii "ircserv.local").isEmpty = false := rfl
    simp only [if_true, Parser.takeToken_of_ends spaceless (Or.inr ⟨rest, rfl⟩), named,
      Bool.false_eq_true, if_false, Parser.parseCommand] at parsed
    split at parsed
    · simp at parsed
    · rcases Option.map_eq_some_iff.mp parsed with ⟨params, _, rfl⟩
      rw [tidingOf, nicknameOf_serverName] at told
      exact personal_of_serverTiding told

theorem tiding_error (error : InputError) : tiding error.text = none := by
  cases error with
  | lineTooLong => decide +kernel
  | bufferLimit => decide +kernel

section Numeric

variable {client : Client}
  (valid : client.nickname ≠ [] → IrcUtil.isValidNickname client.nickname = true)
include valid

/-- What a numeric reply tells, by its code and its parameters. -/
theorem tiding_numeric {code : Nat} (listed : code ∈ welcomeCodes ++ replyCodes)
    (parameters : Bytes) :
    tiding (Reply.numeric (ascii "ircserv.local") client code parameters) =
      (Parser.parseParams Parser.maxParams
        (byte ' ' :: (Reply.targetName client ++ Reply.trailing parameters))).bind
          (serverTiding (Reply.threeDigits code)) := by
  have form := lineForm_numeric (by decide : IrcUtil.isSafeToken (ascii "ircserv.local") = true)
    (safe_targetName_of_valid valid) listed parameters
  have served : tidingOf (ascii "ircserv.local") (Reply.threeDigits code) =
      serverTiding (Reply.threeDigits code) := by
    funext params
    rw [tidingOf, nicknameOf_serverName]
  rw [form.tiding, served]

/-- A reply with another code tells nothing. -/
theorem tiding_numeric_other {code : Nat} (listed : code ∈ welcomeCodes ++ replyCodes)
    (other : Reply.threeDigits code ∉ [ascii "001", ascii "353", ascii "366"])
    (parameters : Bytes) :
    tiding (Reply.numeric (ascii "ircserv.local") client code parameters) = none := by
  simp only [List.mem_cons, List.not_mem_nil, or_false, not_or] at other
  rcases other with ⟨notWelcome, notNames, notEnd⟩
  have silent : serverTiding (Reply.threeDigits code) = fun _ => none := by
    funext params
    simp only [serverTiding, if_neg notWelcome, if_neg notNames, if_neg notEnd]
  rw [tiding_numeric valid listed, silent, Option.bind_fun_none]

end Numeric

end IrcPlatform.Irc
