import IrcPlatform.Gateway.MessageLine
import IrcPlatform.Irc.LineShape
import IrcPlatform.Irc.Parameters
import IrcPlatform.Irc.Registration

/-!
# The lines of a new connection

The gateway writes PASS, NICK and USER as soon as its socket is connected. It removes
spaces and line breaks from the password and from the username and checks nothing else of
them, so the server reads what was meant only where nothing is removed and no colon stands in
front, and where the line is short enough.
-/

namespace IrcPlatform.Gateway

open JsString

/-! ## Lines that `send` writes -/

theorem utf8_joined (command : JsString) (params : List JsString) :
    utf8 ((command :: params).intersperse [0x20]).flatten =
      utf8 command ++ Irc.spaced (params.map utf8) := by
  induction params generalizing command with
  | nil => simp [Irc.spaced]
  | cons param params ih =>
      have joined : ((command :: param :: params).intersperse [0x20]).flatten =
          command ++ 0x20 :: ((param :: params).intersperse [0x20]).flatten := by simp
      rw [joined, utf8_append_cons (by decide), ih, List.map_cons, Irc.spaced_cons]
      rfl

/-- The part of a line behind its last parameter without a colon. -/
def trailingPart (trailing : JsString) : Bytes :=
  if (blankLineBreaks trailing).isEmpty then []
  else Irc.behindColon (utf8 (blankLineBreaks trailing))

theorem formatLine_eq (command : JsString) (params : List JsString) (trailing : JsString) :
    formatLine command params trailing =
      utf8 command ++ (Irc.spaced (params.map fun param => utf8 (removeSeparators param)) ++
        trailingPart trailing) := by
  have words : (params.map removeSeparators).map utf8 =
      params.map fun param => utf8 (removeSeparators param) := by simp
  simp only [formatLine, trailingPart]
  split
  · rw [utf8_joined, words, List.append_nil]
  · have colon : js " :" ++ blankLineBreaks trailing =
        0x20 :: unit ':' :: blankLineBreaks trailing := rfl
    rw [List.append_assoc, colon, utf8_append_cons (by decide), utf8_cons_of_lt (by decide),
      utf8_joined, words, List.append_assoc]
    rfl

theorem lineFeed_not_mem_removeSeparators (text : JsString) :
    10 ∉ utf8 (removeSeparators text) := by
  intro listed
  have member := (@mem_utf8_iff 10 (by decide) _).mp listed
  exact absurd (List.mem_filter.mp member).2 (by decide)

theorem lineFeed_not_mem_rest (params : List JsString) (trailing : JsString) :
    10 ∉ Irc.spaced (params.map fun param => utf8 (removeSeparators param)) ++
      trailingPart trailing := by
  intro listed
  rcases List.mem_append.mp listed with words | text
  · rcases List.mem_flatMap.mp words with ⟨word, member, inWord⟩
    rcases List.mem_map.mp member with ⟨param, _, rfl⟩
    rcases List.mem_cons.mp inWord with same | inParam
    · exact absurd same (by decide)
    · exact lineFeed_not_mem_removeSeparators param inParam
  · rw [trailingPart] at text
    split at text
    · simp at text
    · rw [Irc.behindColon, List.mem_cons, List.mem_cons] at text
      rcases text with same | same | inText
      · exact absurd same (by decide)
      · exact absurd same (by decide)
      · exact lineFeed_not_mem_sent _ inText

/-- A line is read as meant when it is short, has no NUL and its parameters come back. -/
theorem sentAs_iff {word rest : Bytes} (middle : Irc.isMiddle word = true)
    (upper : Irc.IrcUtil.toUpperAscii word = word) (ends : Irc.EndsWord rest)
    (unbroken : 10 ∉ word ++ rest) {meant : List Bytes} :
    SentAs (word ++ rest) word meant ↔ (word ++ rest).length ≤ 510 ∧ 0 ∉ word ++ rest ∧
      Irc.Parser.parseParams Irc.Parser.maxParams rest = some meant := by
  constructor
  · intro sent
    have noNul : 0 ∉ word ++ rest := by
      intro nul
      have dropped := sent.parsed
      rw [Irc.Parser.parse, if_pos (by simpa using nul)] at dropped
      simp at dropped
    have read := sent.parsed
    rw [Irc.Parser.parse_word middle ends noNul] at read
    rcases Option.map_eq_some_iff.mp read with ⟨found, result, same⟩
    rw [Irc.Message.mk.injEq] at same
    refine ⟨?_, noNul, by rw [result, same.2.2]⟩
    by_contra long
    have framed := sent.framed []
    generalize word ++ rest = line at unbroken long framed
    have raw : line ++ crlf ++ [] = (line ++ [13]) ++ 10 :: [] := by simp [crlf]
    have unbrokenRaw : (10 : UInt8) ∉ line ++ [13] := by simp [unbroken]
    have cut : Irc.BufferUtil.dropCarriageReturn (line ++ [13]) = line := by
      simp [Irc.BufferUtil.dropCarriageReturn]
    simp only [Irc.BufferUtil.findLine, raw, beforeLineFeed_append unbrokenRaw, cut] at framed
    rw [if_pos (by rw [Irc.IrcUtil.ircMaxContent]; omega)] at framed
    simp at framed
  · rintro ⟨short, noNul, read⟩
    constructor
    case framed => exact findLine_of_unbroken unbroken short
    case parsed =>
      rw [Irc.Parser.parse_word middle ends noNul, read, upper]
      rfl

/-! ## What is carried -/

/-- The password reaches the server as it is. -/
def passwordCarried (password : Bytes) : Bool :=
  utf8 (decodeUtf8 password) == password && Irc.IrcUtil.isSafeToken password &&
    password.length ≤ 505

/-- The username reaches the server as it is, and the server takes it. -/
def usernameCarried (nickname : JsString) (username : JsonValue) : Bool :=
  !username.truthy || username.toText.any fun text =>
    !Irc.Server.badUsername (utf8 text) && (utf8 text).head? != some (byte ':') &&
      (utf8 text).length + (utf8 nickname).length ≤ 499

def passMessage (password : Bytes) : Irc.Message where
  command := ascii "PASS"
  params := [password]

def nickMessage (nickname : JsString) : Irc.Message where
  command := ascii "NICK"
  params := [utf8 nickname]

def userMessage (nickname username : JsString) : Irc.Message where
  command := ascii "USER"
  params := [utf8 username, ascii "0", ascii "*", utf8 nickname]

section Separators

variable {text : JsString}

theorem utf8_removeSeparators :
    ∀ c ∈ utf8 (removeSeparators text), c ≠ byte ' ' ∧ c ≠ 13 ∧ c ≠ 10 := by
  have gone {c : UInt16} (small : c < 0x80) (separator : isLineBreak c = true ∨ c = 0x20) :
      c.toNat.toUInt8 ∉ utf8 (removeSeparators text) := by
    intro listed
    have kept := (List.mem_filter.mp ((mem_utf8_iff small _).mp listed)).2
    simp only [Bool.not_eq_true', Bool.or_eq_false_iff, beq_eq_false_iff_ne] at kept
    rcases separator with lineBreak | space
    · simp [lineBreak] at kept
    · exact kept.2 space
  intro c listed
  refine ⟨?_, ?_, ?_⟩
  · rintro rfl
    exact @gone 0x20 (by decide) (Or.inr rfl) listed
  · rintro rfl
    exact @gone 13 (by decide) (Or.inl rfl) listed
  · rintro rfl
    exact @gone 10 (by decide) (Or.inl rfl) listed

theorem removeSeparators_eq_self
    (clean : ∀ c ∈ utf8 text, c ≠ byte ' ' ∧ c ≠ 13 ∧ c ≠ 10) : removeSeparators text = text := by
  apply List.filter_eq_self.mpr
  intro c listed
  simp only [isLineBreak, Bool.not_eq_true', Bool.or_eq_false_iff, beq_eq_false_iff_ne]
  refine ⟨⟨?_, ?_⟩, ?_⟩
  · rintro rfl
    exact (clean _ ((@mem_utf8_iff 10 (by decide) text).mpr listed)).2.2 rfl
  · rintro rfl
    exact (clean _ ((@mem_utf8_iff 13 (by decide) text).mpr listed)).2.1 rfl
  · rintro rfl
    exact (clean _ ((@mem_utf8_iff 0x20 (by decide) text).mpr listed)).1 rfl

theorem blankLineBreaks_eq_self (clean : ∀ c ∈ utf8 text, c ≠ 13 ∧ c ≠ 10) :
    blankLineBreaks text = text := by
  have same : ∀ c ∈ text, (if isLineBreak c then 0x20 else c) = c := by
    intro c listed
    split
    next lineBreak =>
      rcases (isLineBreak_iff c).mp lineBreak with rfl | rfl
      · exact absurd rfl (clean _ ((@mem_utf8_iff 10 (by decide) text).mpr listed)).2
      · exact absurd rfl (clean _ ((@mem_utf8_iff 13 (by decide) text).mpr listed)).1
    · rfl
  calc blankLineBreaks text = text.map id := List.map_congr_left same
    _ = text := List.map_id text

end Separators

/-! ## The three lines -/

theorem safe_nickname {nickname : JsString} (valid : matchesNickname nickname = true) :
    Irc.IrcUtil.isSafeToken (utf8 nickname) = true := by
  rcases Irc.isNicknameByte_of_valid (isValidNickname_of_matches valid) with ⟨nonempty, allowed⟩
  rw [Irc.isSafeToken_iff]
  refine ⟨nonempty, ?_, ?_⟩
  · intro first
    exact (Irc.isNicknameByte_avoids (allowed _ (List.mem_of_head? first))).2.1 rfl
  · intro c listed
    rcases Irc.isNicknameByte_avoids (allowed c listed) with ⟨space, _, _, _, clean⟩
    exact ⟨space, clean⟩

/-- A safe token is sent as it is. -/
theorem removeSeparators_of_safe {text : JsString}
    (safe : Irc.IrcUtil.isSafeToken (utf8 text) = true) : removeSeparators text = text := by
  apply removeSeparators_eq_self
  intro c listed
  rcases (Irc.isSafeToken_iff.mp safe).2.2 c listed with ⟨space, return_, feed, _⟩
  exact ⟨space, return_, feed⟩

theorem zero_not_mem_of_safe {token : Bytes} (safe : Irc.IrcUtil.isSafeToken token = true) :
    0 ∉ token :=
  fun listed => ((Irc.isSafeToken_iff.mp safe).2.2 0 listed).2.2.2 rfl

/-- A line with one parameter. -/
theorem formatLine_single (command param : JsString) :
    formatLine command [param] [] =
      utf8 command ++ Irc.spaced [utf8 (removeSeparators param)] := by
  rw [formatLine_eq]
  simp [trailingPart, blankLineBreaks]

theorem lineFeed_not_mem_formatLine {command : JsString} (unbroken : 10 ∉ utf8 command)
    (params : List JsString) (trailing : JsString) :
    10 ∉ formatLine command params trailing := by
  rw [formatLine_eq, List.mem_append, not_or]
  exact ⟨unbroken, lineFeed_not_mem_rest params trailing⟩

/-- A line with one safe parameter is read as meant, when it is short. -/
theorem sentAs_single {command param : JsString} (middle : Irc.isMiddle (utf8 command) = true)
    (upper : Irc.IrcUtil.toUpperAscii (utf8 command) = utf8 command)
    (unbroken : 10 ∉ utf8 command) (noNul : 0 ∉ utf8 command)
    (safe : Irc.IrcUtil.isSafeToken (utf8 param) = true)
    (short : (utf8 command).length + (utf8 param).length ≤ 509) :
    SentAs (formatLine command [param] []) (utf8 command) [utf8 param] := by
  have line := formatLine_single command param
  rw [removeSeparators_of_safe safe] at line
  have noLineFeed := lineFeed_not_mem_formatLine unbroken [param] []
  rw [line] at noLineFeed ⊢
  have ends : Irc.EndsWord (Irc.spaced [utf8 param]) := Or.inr ⟨_, Irc.spaced_cons _ _⟩
  rw [sentAs_iff middle upper ends noLineFeed]
  refine ⟨?_, ?_, ?_⟩
  · simp only [Irc.spaced, List.flatMap_cons, List.flatMap_nil, List.append_nil,
      List.length_append, List.length_cons]
    omega
  · simp only [Irc.spaced, List.flatMap_cons, List.flatMap_nil, List.append_nil, List.mem_append,
      List.mem_cons, not_or]
    exact ⟨noNul, by decide, zero_not_mem_of_safe safe⟩
  · rw [Irc.Parser.parseParams_spaced_iff]
    refine ⟨?_, by simp [Irc.Parser.maxParams]⟩
    intro word listed
    rw [List.mem_singleton.mp listed]
    exact (Irc.isSafeToken_iff_isMiddle.mp safe).1

theorem sentAs_nick {nickname : JsString} (valid : matchesNickname nickname = true) :
    SentAs (formatLine (js "NICK") [nickname] []) (ascii "NICK") [utf8 nickname] := by
  have short : (utf8 nickname).length ≤ 50 := length_utf8_target ⟨nickname, by simp [valid]⟩
  have command : utf8 (js "NICK") = ascii "NICK" := by decide
  rw [← command]
  apply sentAs_single (by decide) (by decide) (by decide) (by decide) (safe_nickname valid)
  rw [command]
  have four : (ascii "NICK").length = 4 := by decide
  omega

/-- What the server reads of a single word without a space. -/
theorem parseParams_single {room : Nat} {word param : Bytes} (spaceless : byte ' ' ∉ word)
    (read : Irc.Parser.parseParams (room + 1) (Irc.spaced [word]) = some [param]) :
    param = word ∨ word = byte ':' :: param := by
  rw [Irc.spaced_cons, Irc.Parser.parseParams_space, Irc.spaced, List.flatMap_nil,
    List.append_nil] at read
  by_cases middle : Irc.isMiddle word = true
  · have whole := Irc.Parser.parseParams_word middle (Or.inl rfl) room
    rw [List.append_nil, read, Irc.Parser.parseParams_nil, Option.map_some, Option.some.injEq,
      List.cons.injEq] at whole
    exact Or.inl whole.1
  · rw [Irc.isMiddle_iff] at middle
    cases word with
    | nil => simp [Irc.Parser.parseParams_nil] at read
    | cons first tail =>
        have colon : first = byte ':' := by
          by_contra other
          apply middle
          exact ⟨by simp, by simpa using other, spaceless⟩
        subst colon
        rw [Irc.Parser.parseParams_colon, Option.some.injEq, List.cons.injEq] at read
        exact Or.inr (by rw [read.1])

theorem sentAs_pass_iff {password : Bytes} :
    SentAs (formatLine (js "PASS") [decodeUtf8 password] []) (ascii "PASS") [password] ↔
      passwordCarried password = true := by
  have command : utf8 (js "PASS") = ascii "PASS" := by decide
  have four : (ascii "PASS").length = 4 := by decide
  simp only [passwordCarried, Bool.and_eq_true, beq_iff_eq, decide_eq_true_eq]
  constructor
  · intro sent
    have noLineFeed := @lineFeed_not_mem_formatLine (js "PASS") (by decide)
      [decodeUtf8 password] []
    rw [formatLine_single, command] at sent noLineFeed
    have ends : Irc.EndsWord (Irc.spaced [utf8 (removeSeparators (decodeUtf8 password))]) :=
      Or.inr ⟨_, Irc.spaced_cons _ _⟩
    rcases (sentAs_iff (by decide) (by decide) ends noLineFeed).mp sent with
      ⟨short, noNul, read⟩
    have separators := @utf8_removeSeparators (decodeUtf8 password)
    have spaceless : byte ' ' ∉ utf8 (removeSeparators (decodeUtf8 password)) := by
      intro listed
      exact (separators _ listed).1 rfl
    -- The password is an encoding without separators, whether a colon is lost or not.
    have encoded : ∃ text, password = utf8 text ∧
        ∀ c ∈ utf8 text, c ≠ byte ' ' ∧ c ≠ 13 ∧ c ≠ 10 := by
      rcases parseParams_single spaceless read with same | colon
      · exact ⟨_, same, separators⟩
      · rcases exists_of_utf8_eq_cons (by decide) colon with ⟨c, others, _, _, same⟩
        refine ⟨others, same.symm, ?_⟩
        intro b listed
        apply separators b
        rw [colon, ← same]
        exact List.mem_cons_of_mem _ listed
    rcases encoded with ⟨text, same, clean⟩
    have valid : utf8 (decodeUtf8 password) = password := by
      rw [same, utf8_decodeUtf8_utf8]
    have kept : removeSeparators (decodeUtf8 password) = decodeUtf8 password := by
      apply removeSeparators_eq_self
      rw [valid, same]
      exact clean
    rw [kept, valid] at read noNul short
    have middle : Irc.isMiddle password = true := by
      have alone := (Irc.Parser.parseParams_spaced_iff.mp read).1
      exact alone password List.mem_cons_self
    simp only [Irc.spaced, List.flatMap_cons, List.flatMap_nil, List.append_nil,
      List.length_append, List.length_cons, List.mem_append, List.mem_cons, not_or] at short noNul
    refine ⟨⟨valid, Irc.isSafeToken_iff_isMiddle.mpr ⟨middle, ?_⟩⟩, by omega⟩
    intro c listed
    have separated := clean c (same ▸ listed)
    refine ⟨separated.2.1, separated.2.2, ?_⟩
    rintro rfl
    exact noNul.2.2 listed
  · rintro ⟨⟨valid, safe⟩, short⟩
    have sent := @sentAs_single (js "PASS") (decodeUtf8 password) (by decide) (by decide)
      (by decide) (by decide)
    rw [valid, command] at sent
    exact sent safe (by omega)

theorem lowerLetter_character {c : UInt16} (valid : isNicknameCharacter c = true) :
    isNicknameCharacter (lowerLetter c) = true ∧
      (isLetter c = true → isLetter (lowerLetter c) = true) := by
  have small := lt_of_isPlain (isPlain_of_isNicknameCharacter valid)
  revert valid
  apply @of_ascii_characters (fun c => isNicknameCharacter c = true →
    isNicknameCharacter (lowerLetter c) = true ∧
      (isLetter c = true → isLetter (lowerLetter c) = true)) _ _ small
  decide

/-- The username that stands for a missing one is a nickname, too. -/
theorem matchesNickname_toLowerCase {nickname : JsString}
    (valid : matchesNickname nickname = true) : matchesNickname (toLowerCase nickname) = true := by
  cases nickname with
  | nil => simp [matchesNickname] at valid
  | cons first rest =>
      simp only [matchesNickname, toLowerCase, List.map_cons, List.length_map, Bool.and_eq_true,
        decide_eq_true_eq, List.all_eq_true] at valid ⊢
      rcases valid with ⟨⟨letter, short⟩, characters⟩
      have start := lowerLetter_character (isNicknameCharacter_of_isLetter letter)
      refine ⟨⟨start.2 letter, short⟩, ?_⟩
      intro c listed
      rcases List.mem_map.mp listed with ⟨original, member, rfl⟩
      exact (lowerLetter_character (characters original member)).1

/-- A username that the server takes is a safe token, up to a colon in front. -/
theorem safe_of_username {username : Bytes} (good : Irc.Server.badUsername username = false)
    (noColon : username.head? ≠ some (byte ':')) :
    Irc.IrcUtil.isSafeToken username = true := by
  rw [Irc.isSafeToken_iff]
  simp only [Irc.Server.badUsername, Bool.or_eq_false_iff, List.isEmpty_eq_false_iff] at good
  refine ⟨good.1, noColon, ?_⟩
  intro c listed
  have avoided := List.any_eq_false.mp good.2 c listed
  simp only [Bool.or_eq_true, beq_iff_eq, not_or] at avoided
  exact ⟨avoided.1.1.1.1, avoided.1.1.2, avoided.1.2, avoided.2⟩

theorem good_nickname {nickname : JsString} (valid : matchesNickname nickname = true) :
    Irc.Server.badUsername (utf8 nickname) = false := by
  rcases Irc.isNicknameByte_of_valid (isValidNickname_of_matches valid) with ⟨nonempty, allowed⟩
  simp only [Irc.Server.badUsername, Bool.or_eq_false_iff, List.isEmpty_eq_false_iff]
  refine ⟨nonempty, List.any_eq_false.mpr ?_⟩
  intro c listed
  have byteAllowed := allowed c listed
  clear listed
  rcases c with ⟨⟨value⟩⟩
  revert value
  decide +kernel

section User

variable {nickname : JsString} (valid : matchesNickname nickname = true)
include valid

theorem trailingPart_nickname :
    trailingPart nickname = Irc.behindColon (utf8 nickname) := by
  have kept : blankLineBreaks nickname = nickname := by
    apply blankLineBreaks_eq_self
    intro c listed
    rcases (Irc.isSafeToken_iff.mp (safe_nickname valid)).2.2 c listed with ⟨_, return_, feed, _⟩
    exact ⟨return_, feed⟩
  have nonempty : nickname.isEmpty = false := by
    cases nickname with
    | nil => simp [matchesNickname] at valid
    | cons _ _ => rfl
  rw [trailingPart, kept, nonempty]
  rfl

theorem formatLine_user (username : JsString) :
    formatLine (js "USER") [username, js "0", js "*"] nickname = ascii "USER" ++
      (Irc.spaced [utf8 (removeSeparators username), ascii "0", ascii "*"] ++
        Irc.behindColon (utf8 nickname)) := by
  have command : utf8 (js "USER") = ascii "USER" := by decide
  have zero : utf8 (removeSeparators (js "0")) = ascii "0" := by decide
  have star : utf8 (removeSeparators (js "*")) = ascii "*" := by decide
  rw [formatLine_eq, command, trailingPart_nickname valid, List.map_cons, List.map_cons,
    List.map_cons, List.map_nil, zero, star]

theorem sentAs_user_iff {username : JsString}
    (good : Irc.Server.badUsername (utf8 username) = false) :
    SentAs (formatLine (js "USER") [username, js "0", js "*"] nickname) (ascii "USER")
        [utf8 username, ascii "0", ascii "*", utf8 nickname] ↔
      (utf8 username).head? ≠ some (byte ':') ∧
        (utf8 username).length + (utf8 nickname).length ≤ 499 := by
  have four : (ascii "USER").length = 4 := by decide
  have one : (ascii "0").length = 1 ∧ (ascii "*").length = 1 := by decide
  have kept : removeSeparators username = username := by
    apply removeSeparators_eq_self
    simp only [Irc.Server.badUsername, Bool.or_eq_false_iff] at good
    intro c listed
    have avoided := List.any_eq_false.mp good.2 c listed
    simp only [Bool.or_eq_true, beq_iff_eq, not_or] at avoided
    exact ⟨avoided.1.1.1.1, avoided.1.1.2, avoided.1.2⟩
  have noLineFeed := @lineFeed_not_mem_formatLine (js "USER") (by decide)
    [username, js "0", js "*"] nickname
  rw [formatLine_user valid, kept] at noLineFeed ⊢
  have ends := Irc.endsWord_spaced [utf8 username, ascii "0", ascii "*"]
    (Irc.endsWord_behindColon (utf8 nickname))
  rw [sentAs_iff (by decide) (by decide) ends noLineFeed]
  have size : (ascii "USER" ++ (Irc.spaced [utf8 username, ascii "0", ascii "*"] ++
      Irc.behindColon (utf8 nickname))).length =
      11 + (utf8 username).length + (utf8 nickname).length := by
    simp only [Irc.spaced, Irc.behindColon, List.flatMap_cons, List.flatMap_nil, List.append_nil,
      List.length_append, List.length_cons, four, one.1, one.2]
    omega
  have meant : [utf8 username, ascii "0", ascii "*", utf8 nickname] =
      [utf8 username, ascii "0", ascii "*"] ++ [utf8 nickname] := rfl
  rw [size, meant, Irc.Parser.parseParams_behindColon_iff]
  constructor
  · rintro ⟨short, _, middle, _⟩
    exact ⟨(Irc.isMiddle_iff.mp (middle _ List.mem_cons_self)).2.1, by omega⟩
  · rintro ⟨noColon, short⟩
    have safe := safe_of_username good noColon
    refine ⟨by omega, ?_, ?_, by simp [Irc.Parser.maxParams]⟩
    · simp only [Irc.spaced, Irc.behindColon, List.flatMap_cons, List.flatMap_nil,
        List.append_nil, List.mem_append, List.mem_cons, not_or]
      refine ⟨by decide, ⟨⟨by decide, zero_not_mem_of_safe safe⟩, ⟨by decide, by decide⟩,
        by decide, by decide⟩, by decide, by decide, ?_⟩
      exact zero_not_mem_of_safe (safe_nickname valid)
    · intro word listed
      simp only [List.mem_cons, List.not_mem_nil, or_false] at listed
      rcases listed with rfl | rfl | rfl
      · exact (Irc.isSafeToken_iff_isMiddle.mp safe).1
      · decide
      · decide

end User

/-! ## Registration -/

/-- No step is about the client. -/
def Unconcerned (fd : Int) (steps : List Irc.ServerStep) : Prop :=
  ∀ step ∈ steps, step.subject ≠ some fd

theorem password_performAll {start after : Irc.Server} {steps : List Irc.ServerStep}
    (performed : Irc.stepMachine.performAll steps start = some after) :
    after.password = start.password := by
  apply @Machine.performAll_induction _ _ Irc.stepMachine start
    (fun _ server => server.password = start.password) rfl _ _ _ performed
  intro _ step between _ same _
  exact (Irc.Server.advance_settings between step).password.trans same

section Account

variable {server after : Irc.Server} {fd : Int} {account : Irc.Account}

/-- Steps that are not about a client keep its account. -/
theorem hasAccount_undisturbed {steps : List Irc.ServerStep}
    (reached : Irc.stepSystem.Reachable server) (quiet : Unconcerned fd steps)
    (performed : Irc.stepMachine.performAll steps server = some after)
    (holds : server.HasAccount fd account) : after.HasAccount fd account := by
  induction steps generalizing server with
  | nil =>
      rw [Machine.performAll, Option.some.injEq] at performed
      exact performed ▸ holds
  | cons step steps ih =>
      rw [Machine.performAll] at performed
      split at performed
      next ready =>
        apply ih (reached.next ⟨ready, rfl⟩)
          (fun later listed => quiet later (List.mem_cons_of_mem _ listed)) performed
        rcases holds with ⟨client, found, same⟩
        have kept := Irc.Server.identity_advance (Irc.Server.step_reachable_consistent reached)
          (quiet step List.mem_cons_self)
        rw [found] at kept
        rcases Option.map_eq_some_iff.mp kept with ⟨next, foundNext, identity⟩
        exact ⟨next, foundNext, (Irc.Client.account_of_identity identity).trans same⟩
      · simp at performed

theorem hasAccount_command (reached : Irc.stepSystem.Reachable server)
    (holds : server.HasAccount fd account) (message : Irc.Message) :
    (server.advance (.command fd message)).HasAccount fd (account.next server.password
      (fun nickname => server.isNicknameAvailable nickname fd) message) := by
  rcases holds with ⟨client, found, rfl⟩
  have consistent := Irc.Server.step_reachable_consistent reached
  exact @Irc.Server.dispatchCommand_account (server.record _) fd client consistent found message

/-- A command and steps that are not about its sender. -/
theorem hasAccount_command_then {steps : List Irc.ServerStep} {message : Irc.Message}
    (reached : Irc.stepSystem.Reachable server) (quiet : Unconcerned fd steps)
    (performed : Irc.stepMachine.performAll (.command fd message :: steps) server = some after)
    (holds : server.HasAccount fd account) :
    Irc.stepSystem.Reachable after ∧ after.HasAccount fd (account.next server.password
      (fun nickname => server.isNicknameAvailable nickname fd) message) := by
  have ended := Machine.reaches_performAll reached performed (Machine.everyStep_true _ _)
  refine ⟨ended, ?_⟩
  rw [Machine.performAll] at performed
  split at performed
  next ready =>
    exact hasAccount_undisturbed (reached.next ⟨ready, rfl⟩) quiet performed
      (hasAccount_command reached holds message)
  · simp at performed

end Account

/-- The three commands register a new connection whose nickname is free when NICK is read,
whatever other clients do in between. -/
theorem registered_of_commands {password start peerAddress : Bytes} {listenFd fd : Int}
    {nickname username : JsString} {early first second third fourth : List Irc.ServerStep}
    {asked final : Irc.Server} (valid : matchesNickname nickname = true)
    (good : Irc.Server.badUsername (utf8 username) = false)
    (quietFirst : Unconcerned fd first) (quietSecond : Unconcerned fd second)
    (quietThird : Unconcerned fd third) (quietFourth : Unconcerned fd fourth)
    (performed : Irc.stepMachine.performAll (early ++ .accept fd peerAddress ::
      (first ++ .command fd (passMessage password) :: second))
      (Irc.Server.fresh password start listenFd) = some asked)
    (free : asked.isNicknameAvailable (utf8 nickname) fd = true)
    (performedLater : Irc.stepMachine.performAll (.command fd (nickMessage nickname) ::
      (third ++ .command fd (userMessage nickname username) :: fourth)) asked = some final) :
    ∃ client, final.findClientByFd fd = some client ∧ client.registered = true := by
  have sameAsked := password_performAll performed
  rw [Machine.performAll_append] at performed
  rcases Option.bind_eq_some_iff.mp performed with ⟨opened, performedEarly, performedRest⟩
  have reachedOpened : Irc.stepSystem.Reachable opened := Machine.reaches_performAll
    (.start ⟨password, start, listenFd, rfl⟩) performedEarly
    (Machine.everyStep_true _ _)
  rw [Machine.performAll] at performedRest
  split at performedRest
  next ready =>
    have reachedAccepted : Irc.stepSystem.Reachable (opened.advance (.accept fd peerAddress)) :=
      reachedOpened.next ⟨ready, rfl⟩
    have entered : (opened.advance (.accept fd peerAddress)).HasAccount fd
        { hostname := peerAddress } :=
      ⟨_, Irc.Server.core_clients_of_advance_accept ready, rfl⟩
    change Irc.stepMachine.performAll _ (opened.advance (.accept fd peerAddress)) = _
      at performedRest
    have samePassword : (opened.advance (.accept fd peerAddress)).password = password :=
      (Irc.Server.advance_settings opened _).password.trans (password_performAll performedEarly)
    generalize opened.advance (.accept fd peerAddress) = accepted at *
    rw [Machine.performAll_append] at performedRest
    rcases Option.bind_eq_some_iff.mp performedRest with ⟨waiting, performedFirst, performedPass⟩
    have reachedWaiting := Machine.reaches_performAll reachedAccepted performedFirst
      (Machine.everyStep_true _ _)
    have waited := hasAccount_undisturbed reachedAccepted quietFirst performedFirst entered
    have sameWaiting := (password_performAll performedFirst).trans samePassword
    rcases hasAccount_command_then reachedWaiting quietSecond performedPass waited with
      ⟨reachedAsked, passed⟩
    rw [← List.cons_append, Machine.performAll_append] at performedLater
    rcases Option.bind_eq_some_iff.mp performedLater with ⟨named, performedNick, performedUser⟩
    rcases hasAccount_command_then reachedAsked quietThird performedNick passed with
      ⟨reachedNamed, renamed⟩
    rcases hasAccount_command_then reachedNamed quietFourth performedUser renamed with
      ⟨_, client, found, account⟩
    have nonempty := (Irc.isSafeToken_iff.mp (safe_nickname valid)).1
    have given : Irc.Account.givesPassword waiting.password (passMessage password) = true := by
      simp [Irc.Account.givesPassword, passMessage, sameWaiting]
    have data : Irc.Account.userData (userMessage nickname username) =
        some (utf8 username, utf8 nickname) := by
      simp [Irc.Account.userData, userMessage, good]
    rw [Irc.Account.next_user (by simp only [userMessage]; decide)
        (by simp only [userMessage]; decide),
      @Irc.Account.next_nick _ _ (nickMessage nickname) _ rfl,
      @Irc.Account.next_pass _ _ (passMessage password) _ rfl] at account
    simp only [given, data, nickMessage, isValidNickname_of_matches valid, free] at account
    have flag := congrArg Irc.Account.registered account
    refine ⟨client, found, ?_⟩
    change client.registered = _ at flag
    rw [flag]
    simp [Irc.Account.tryComplete, Irc.Account.complete, Irc.Account.acceptPassword,
      Irc.Account.setNickname, Irc.Account.setUser, nonempty]
  · simp at performedRest

/-- What the gateway promises of a connection that it opens: the server reads its three lines
as the registration commands, takes the username, and registers the connection where the
nickname is free. -/
structure Registers (password : Bytes) (irc : IrcConnection) : Prop where
  lines : ∃ username registered pass nick user, irc.username = some username ∧
    irc.register (decodeUtf8 password) = some registered ∧
    registered.toServer = [.other pass, .other nick, .other user] ∧
    SentAs pass (ascii "PASS") [password] ∧
    SentAs nick (ascii "NICK") [utf8 irc.nickname] ∧
    SentAs user (ascii "USER") [utf8 username, ascii "0", ascii "*", utf8 irc.nickname] ∧
    Irc.Server.badUsername (utf8 username) = false
  registered {username : JsString} {start peerAddress : Bytes} {listenFd fd : Int}
    {early first second third fourth : List Irc.ServerStep} {asked final : Irc.Server} :
    irc.username = some username →
    Unconcerned fd first → Unconcerned fd second → Unconcerned fd third →
    Unconcerned fd fourth →
    Irc.stepMachine.performAll (early ++ .accept fd peerAddress ::
      (first ++ .command fd (passMessage password) :: second))
      (Irc.Server.fresh password start listenFd) = some asked →
    asked.isNicknameAvailable (utf8 irc.nickname) fd = true →
    Irc.stepMachine.performAll (.command fd (nickMessage irc.nickname) ::
      (third ++ .command fd (userMessage irc.nickname username) :: fourth)) asked = some final →
    ∃ client, final.findClientByFd fd = some client ∧ client.registered = true

/-- The lines of the connect listener. -/
theorem toServer_register {nickname : JsString} {username : JsonValue} {text : JsString}
    {password : JsString} (nonempty : password ≠ [])
    (named : (IrcConnection.create nickname username).username = some text) :
    ∃ registered, (IrcConnection.create nickname username).register password = some registered ∧
      registered.toServer = [.other (formatLine (js "PASS") [password] []),
        .other (formatLine (js "NICK") [nickname] []),
        .other (formatLine (js "USER") [text, js "0", js "*"] nickname)] := by
  rw [IrcConnection.register, named, Option.map_some]
  refine ⟨_, rfl, ?_⟩
  have given : password.isEmpty = false := by simpa using nonempty
  rw [given]
  rfl

/-- The connection that an accepted `connect` message opens. -/
theorem created_of_connect {connection connected : Connection} {nickname : JsString}
    {channel username : JsonValue} {irc : IrcConnection}
    (accepted : connection.connect (.string nickname) channel username = some connected)
    (opened : connected.irc = some irc) :
    matchesNickname nickname = true ∧ irc = IrcConnection.create nickname username := by
  cases existing : connection.irc with
  | some _ => simp [Connection.connect, existing] at accepted
  | none =>
      simp only [Connection.connect, existing] at accepted
      split at accepted
      next valid =>
        rcases Option.map_eq_some_iff.mp accepted with ⟨joined, _, rfl⟩
        rw [Option.some.injEq] at opened
        exact ⟨valid, opened.symm⟩
      · simp at accepted

theorem carried_of_registers {nickname : JsString} {username : JsonValue} {password : Bytes}
    (valid : matchesNickname nickname = true)
    (registers : Registers password (IrcConnection.create nickname username)) :
    passwordCarried password = true ∧ usernameCarried nickname username = true := by
  rcases registers.lines with
    ⟨text, registered, pass, nick, user, named, result, queue, passed, _, used, good⟩
  have textNonempty : decodeUtf8 password ≠ [] := by
    intro missing
    rw [IrcConnection.register, named, Option.map_some, missing, Option.some.injEq] at result
    rw [← result] at queue
    simp [IrcConnection.send, IrcConnection.write, IrcConnection.create,
      IrcConnection.reaches, IrcConnection.writable] at queue
  rcases toServer_register textNonempty named with ⟨other, sameResult, lines⟩
  rw [result, Option.some.injEq] at sameResult
  rw [← sameResult, queue] at lines
  simp only [List.cons.injEq, Line.other.injEq, and_true] at lines
  rcases lines with ⟨rfl, rfl, rfl⟩
  have names : (IrcConnection.create nickname username).nickname = nickname := rfl
  rw [names, sentAs_user_iff valid good] at used
  refine ⟨sentAs_pass_iff.mp passed, ?_⟩
  cases given : username.truthy with
  | false => simp [usernameCarried, given]
  | true =>
      have value : username.toText = some text := by
        simpa [IrcConnection.create, given] using named
      simp [usernameCarried, given, value, good, used]

/-- The username of a connection whose message has a good one or none. -/
theorem username_of_carried {nickname : JsString} {username : JsonValue}
    (valid : matchesNickname nickname = true) (used : usernameCarried nickname username = true) :
    ∃ text, (IrcConnection.create nickname username).username = some text ∧
      Irc.Server.badUsername (utf8 text) = false ∧ (utf8 text).head? ≠ some (byte ':') ∧
      (utf8 text).length + (utf8 nickname).length ≤ 499 := by
  cases given : username.truthy with
  | false =>
      have lower := matchesNickname_toLowerCase valid
      have short : (utf8 nickname).length ≤ 50 := length_utf8_target ⟨nickname, by simp [valid]⟩
      have shortLower : (utf8 (toLowerCase nickname)).length ≤ 50 :=
        length_utf8_target ⟨toLowerCase nickname, by simp [lower]⟩
      refine ⟨toLowerCase nickname, by simp [IrcConnection.create, given],
        good_nickname lower, (Irc.isSafeToken_iff.mp (safe_nickname lower)).2.1, ?_⟩
      omega
  | true =>
      simp only [usernameCarried, given, Bool.not_true, Bool.false_or, Option.any_eq_true,
        Bool.and_eq_true, Bool.not_eq_true', bne_iff_ne, decide_eq_true_eq] at used
      rcases used with ⟨text, value, ⟨good, noColon⟩, short⟩
      exact ⟨text, by simpa [IrcConnection.create, given] using value, good, noColon, short⟩

/-- The connections of accepted `connect` messages register exactly when the password and the
username are carried. -/
theorem registers_iff {connection connected : Connection} {nickname : JsString}
    {channel username : JsonValue} {irc : IrcConnection} {password : Bytes}
    (nonempty : password ≠ [])
    (accepted : connection.connect (.string nickname) channel username = some connected)
    (opened : connected.irc = some irc) :
    Registers password irc ↔
      passwordCarried password = true ∧ usernameCarried nickname username = true := by
  rcases created_of_connect accepted opened with ⟨valid, rfl⟩
  constructor
  · exact carried_of_registers valid
  · rintro ⟨passed, used⟩
    rcases username_of_carried valid used with ⟨text, named, good, noColon, short⟩
    have textNonempty : decodeUtf8 password ≠ [] := by
      intro missing
      simp only [passwordCarried, missing, Bool.and_eq_true, beq_iff_eq] at passed
      exact nonempty passed.1.1.symm
    rcases toServer_register textNonempty named with ⟨registered, result, queue⟩
    constructor
    case lines =>
      refine ⟨text, registered, _, _, _, named, result, queue, sentAs_pass_iff.mpr passed,
        sentAs_nick valid, ?_, good⟩
      exact (sentAs_user_iff valid good).mpr ⟨noColon, short⟩
    case registered =>
      intro username _ _ _ _ _ _ _ _ _ _ _ sameName
      rw [named, Option.some.injEq] at sameName
      subst sameName
      exact registered_of_commands valid good

theorem registers_iff_alice : ∃ connected irc,
    ({} : Connection).connect (.string (js "alice")) .undefined .undefined = some connected ∧
    connected.irc = some irc ∧
    (Registers (ascii "secret") irc ↔ passwordCarried (ascii "secret") = true ∧
      usernameCarried (js "alice") .undefined = true) :=
  ⟨_, _, rfl, rfl,
    @registers_iff {} _ (js "alice") .undefined .undefined _ _ (by decide) rfl rfl⟩

/-- A password with a space, and a username with an at sign. -/
theorem password_altered : ∃ connected irc,
    ({} : Connection).connect (.string (js "alice")) .undefined .undefined = some connected ∧
    connected.irc = some irc ∧ ¬Registers (ascii "two words") irc ∧
    ∃ connectedBad ircBad,
      ({} : Connection).connect (.string (js "alice")) .undefined (.string (js "a@b")) =
        some connectedBad ∧
      connectedBad.irc = some ircBad ∧ ¬Registers (ascii "secret") ircBad := by
  refine ⟨_, _, rfl, rfl, ?_, _, _, rfl, rfl, ?_⟩
  · intro registers
    exact absurd (carried_of_registers (by decide) registers).1 (by decide)
  · intro registers
    exact absurd (carried_of_registers (by decide) registers).2 (by decide)

end IrcPlatform.Gateway
