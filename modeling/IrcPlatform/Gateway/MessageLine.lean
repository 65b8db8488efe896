import IrcPlatform.Gateway.PrivmsgLine
import Mathlib.Data.List.TakeWhile

/-!
# What the gateway accepts and the server takes

The names and texts that pass the checks of the gateway, against the framing, the
parser and the checks of the server. Names that the gateway accepts are accepted by
the server, and the line of a message is short enough and has no line feed inside; only
a NUL in the text makes the server drop it.
-/

namespace IrcPlatform.Gateway

open JsString

/-- The line is cut out whole wherever it stands in front, and parses to a command. -/
structure SentAs (line command : Bytes) (params : List Bytes) : Prop where
  framed (rest : Bytes) : Irc.BufferUtil.findLine (line ++ crlf ++ rest) =
    .extracted line (line ++ crlf).length
  parsed : Irc.Parser.parse line =
    some { linePrefix := [], command := command, params := params }

/-! ## Framing -/

theorem beforeLineFeed_append {front : Bytes} (unbroken : 10 ∉ front) (rest : Bytes) :
    Irc.BufferUtil.beforeLineFeed (front ++ 10 :: rest) = some front := by
  induction front with
  | nil => rfl
  | cons c front ih =>
      rw [List.mem_cons, not_or] at unbroken
      rw [List.cons_append, Irc.BufferUtil.beforeLineFeed, if_neg (Ne.symm unbroken.1),
        ih unbroken.2]
      rfl

theorem findLine_of_unbroken {line : Bytes} (unbroken : 10 ∉ line) (short : line.length ≤ 510)
    (rest : Bytes) : Irc.BufferUtil.findLine (line ++ crlf ++ rest) =
      .extracted line (line ++ crlf).length := by
  have raw : line ++ crlf ++ rest = (line ++ [13]) ++ 10 :: rest := by simp [crlf]
  have unbrokenRaw : (10 : UInt8) ∉ line ++ [13] := by simp [unbroken]
  have cut : Irc.BufferUtil.dropCarriageReturn (line ++ [13]) = line := by
    simp [Irc.BufferUtil.dropCarriageReturn]
  simp only [Irc.BufferUtil.findLine, raw, beforeLineFeed_append unbrokenRaw, cut]
  rw [if_neg (by rw [Irc.IrcUtil.ircMaxContent]; omega)]
  simp [crlf]

/-! ## Names -/

/-- A fact about ASCII characters is checked on all of them. -/
theorem of_ascii_characters {property : UInt16 → Prop}
    (checked : ∀ value : Fin 128, property value.val.toUInt16) {c : UInt16} (small : c < 0x80) :
    property c := by
  have below : c.toNat < 128 := by simpa [UInt16.lt_iff_toNat_lt] using small
  have same : c.toNat.toUInt16 = c := UInt16.ofNat_toNat
  exact same ▸ checked ⟨c.toNat, below⟩

theorem lt_of_isPlain {c : UInt16} (plain : isPlain c = true) : c < 0x80 := by
  simp only [isPlain, Bool.and_eq_true, decide_eq_true_eq] at plain
  exact plain.1.1.2

/-- The pattern of nicknames, on the bytes. -/
theorem nicknameByte_of_character {c : UInt16} (valid : isNicknameCharacter c = true) :
    (isAsciiLetter c.toNat.toUInt8 || isAsciiDigit c.toNat.toUInt8 ||
      Irc.IrcUtil.isNicknameSpecial c.toNat.toUInt8 || c.toNat.toUInt8 == byte '-') = true := by
  have small := lt_of_isPlain (isPlain_of_isNicknameCharacter valid)
  revert valid
  apply @of_ascii_characters (fun c => isNicknameCharacter c = true →
    (isAsciiLetter c.toNat.toUInt8 || isAsciiDigit c.toNat.toUInt8 ||
      Irc.IrcUtil.isNicknameSpecial c.toNat.toUInt8 || c.toNat.toUInt8 == byte '-') = true) _ _
      small
  decide

theorem isNicknameCharacter_of_isLetter {c : UInt16} (letter : isLetter c = true) :
    isNicknameCharacter c = true := by
  simp [isNicknameCharacter, letter]

theorem letterByte_of_isLetter {c : UInt16} (letter : isLetter c = true) :
    isAsciiLetter c.toNat.toUInt8 = true := by
  have small := lt_of_isPlain (isPlain_of_isNicknameCharacter
    (isNicknameCharacter_of_isLetter letter))
  revert letter
  apply @of_ascii_characters (fun c => isLetter c = true →
    isAsciiLetter c.toNat.toUInt8 = true) _ _ small
  decide

/-- The pattern of channel names, on the bytes. -/
theorem channelByte_of_character {c : UInt16}
    (valid : (isLetter c || isDigit c || c == unit '_' || c == unit '-') = true) :
    c < 0x80 ∧ (!(c.toNat.toUInt8 == byte ' ' || c.toNat.toUInt8 == byte ',' ||
      c.toNat.toUInt8 == byte ':' || c.toNat.toUInt8 == 7 || c.toNat.toUInt8 == 13 ||
      c.toNat.toUInt8 == 10 || c.toNat.toUInt8 == 0)) = true := by
  have character : isNicknameCharacter c = true := by
    simp only [isNicknameCharacter, Bool.or_eq_true] at valid ⊢
    tauto
  have small := lt_of_isPlain (isPlain_of_isNicknameCharacter character)
  refine ⟨small, ?_⟩
  revert valid
  apply @of_ascii_characters (fun c =>
    (isLetter c || isDigit c || c == unit '_' || c == unit '-') = true →
    (!(c.toNat.toUInt8 == byte ' ' || c.toNat.toUInt8 == byte ',' ||
      c.toNat.toUInt8 == byte ':' || c.toNat.toUInt8 == 7 || c.toNat.toUInt8 == 13 ||
      c.toNat.toUInt8 == 10 || c.toNat.toUInt8 == 0)) = true) _ _ small
  decide

theorem isValidNickname_of_matches {name : JsString} (valid : matchesNickname name = true) :
    Irc.IrcUtil.isValidNickname (utf8 name) = true := by
  cases name with
  | nil => simp [matchesNickname] at valid
  | cons first rest =>
      simp only [matchesNickname, Bool.and_eq_true, decide_eq_true_eq, List.all_eq_true] at valid
      rcases valid with ⟨⟨letter, short⟩, characters⟩
      have small : ∀ c ∈ first :: rest, c < 0x80 := by
        intro c listed
        apply lt_of_isPlain
        apply isPlain_of_isNicknameCharacter
        rcases List.mem_cons.mp listed with rfl | later
        · exact isNicknameCharacter_of_isLetter letter
        · exact characters c later
      rw [utf8_of_ascii small, List.map_cons]
      simp only [Irc.IrcUtil.isValidNickname, List.length_cons, List.length_map,
        letterByte_of_isLetter letter, Bool.true_or, Bool.and_true, Bool.and_eq_true,
        decide_eq_true_eq, List.all_eq_true, Irc.IrcUtil.nicknameMaxLength]
      refine ⟨by omega, ?_⟩
      intro b listed
      rcases List.mem_map.mp listed with ⟨c, member, rfl⟩
      exact nicknameByte_of_character (characters c member)

theorem isValidChannelName_of_matches {name : JsString} (valid : matchesChannel name = true) :
    Irc.IrcUtil.isValidChannelName (utf8 name) = true := by
  cases name with
  | nil => simp [matchesChannel] at valid
  | cons first rest =>
      simp only [matchesChannel, Bool.and_eq_true, decide_eq_true_eq, List.all_eq_true,
        beq_iff_eq] at valid
      rcases valid with ⟨⟨⟨rfl, nonempty⟩, short⟩, characters⟩
      have small : ∀ c ∈ unit '#' :: rest, c < 0x80 := by
        intro c listed
        rcases List.mem_cons.mp listed with rfl | later
        · decide
        · exact (channelByte_of_character (characters c later)).1
      rw [utf8_of_ascii small, List.map_cons]
      have hash : ((unit '#').toNat.toUInt8 == byte '#') = true := by decide
      simp only [Irc.IrcUtil.isValidChannelName, List.length_cons, List.length_map, hash,
        Bool.and_true, Bool.and_eq_true, decide_eq_true_eq, List.all_eq_true,
        Irc.IrcUtil.channelNameMaxLength]
      refine ⟨⟨by omega, by omega⟩, ?_⟩
      intro b listed
      rcases List.mem_map.mp listed with ⟨c, member, rfl⟩
      exact (channelByte_of_character (characters c member)).2

/-! ## The line of a message -/

theorem length_utf8_target (target : MessageTarget) : (utf8 target.val).length ≤ 50 := by
  rcases target with ⟨name, valid⟩
  rcases Bool.or_eq_true_iff.mp valid with channel | nickname
  · have accepted := isValidChannelName_of_matches channel
    generalize utf8 name = bytes at accepted
    cases bytes with
    | nil => simp
    | cons first rest =>
        simp only [Irc.IrcUtil.isValidChannelName, Bool.and_eq_true, decide_eq_true_eq] at accepted
        exact accepted.1.1.2
  · have accepted := isValidNickname_of_matches nickname
    generalize utf8 name = bytes at accepted
    cases bytes with
    | nil => simp
    | cons first rest =>
        simp only [Irc.IrcUtil.isValidNickname, Bool.and_eq_true, decide_eq_true_eq] at accepted
        exact accepted.1.1.trans (by decide)

theorem isLineBreak_iff (c : UInt16) : isLineBreak c = true ↔ c = 10 ∨ c = 13 := by
  simp [isLineBreak]

theorem length_utf8Pair (high low : UInt16) : (utf8Pair high low).length = 4 := rfl

/-- A line break and the space that replaces it are one byte each. -/
theorem length_utf8_blankLineBreaks (text : JsString) :
    (utf8 (blankLineBreaks text)).length = (utf8 text).length := by
  have surrogates : ∀ c, isHighSurrogate (if isLineBreak c then 0x20 else c) = isHighSurrogate c ∧
      isLowSurrogate (if isLineBreak c then 0x20 else c) = isLowSurrogate c ∧
      (utf8Unit (if isLineBreak c then 0x20 else c)).length = (utf8Unit c).length := by
    intro c
    split
    next break_ =>
      rcases (isLineBreak_iff c).mp break_ with rfl | rfl
      · decide
      · decide
    · exact ⟨rfl, rfl, rfl⟩
  induction text using utf8.induct with
  | case1 => rfl
  | case2 c => exact (surrogates c).2.2
  | case3 c next rest pair ih =>
      have kept := pair
      rw [← (surrogates c).1, ← (surrogates next).2.1] at kept
      rw [utf8, if_pos pair, List.length_append, ← ih]
      simp only [blankLineBreaks, List.map_cons, utf8, if_pos kept, List.length_append,
        length_utf8Pair]
  | case4 c next rest pair ih =>
      have kept := pair
      rw [← (surrogates c).1, ← (surrogates next).2.1] at kept
      rw [utf8, if_neg pair, List.length_append, ← ih, ← (surrogates c).2.2]
      simp only [blankLineBreaks, List.map_cons, utf8, if_neg kept, List.length_append]

theorem lineFeed_not_mem_sent (text : JsString) : 10 ∉ utf8 (blankLineBreaks text) := by
  intro listed
  have member := (@mem_utf8_iff 10 (by decide) _).mp listed
  rcases List.mem_map.mp member with ⟨c, _, same⟩
  split at same
  · simp at same
  next kept => exact kept (same ▸ rfl)

/-- The line of every message that the gateway accepts is framed whole. -/
theorem findLine_message (entry : Entry) (rest : Bytes) :
    Irc.BufferUtil.findLine ((Line.message entry).text ++ crlf ++ rest) =
      .extracted (Line.message entry).text ((Line.message entry).text ++ crlf).length := by
  rcases target_plain entry.target with ⟨_, plain⟩
  apply findLine_of_unbroken
  · rw [text_message]
    intro listed
    simp only [List.mem_append, List.mem_cons] at listed
    rcases listed with command | same | name | same | same | text
    · exact absurd command (by decide)
    · exact absurd same (by decide)
    · have member := (@mem_utf8_iff 10 (by decide) _).mp name
      exact absurd (plain 10 member) (by decide)
    · exact absurd same (by decide)
    · exact absurd same (by decide)
    · exact lineFeed_not_mem_sent _ text
  · have name := length_utf8_target entry.target
    have text := entry.text.property.2
    have sent : entry.sentText.length = (utf8 entry.text.val).length :=
      length_utf8_blankLineBreaks _
    have command : (ascii "PRIVMSG").length = 7 := by decide
    rw [text_message]
    simp only [List.length_append, List.length_cons, sent, command]
    omega

/-- A NUL is no white space, so trimming keeps it. -/
theorem zero_mem_trim (text : JsString) : 0 ∈ trim text ↔ 0 ∈ text := by
  have kept : ∀ text : JsString, 0 ∈ text.dropWhile isWhiteSpace ↔ 0 ∈ text := by
    intro text
    conv_rhs => rw [← @List.takeWhile_append_dropWhile _ isWhiteSpace text]
    rw [List.mem_append]
    constructor
    · exact Or.inr
    · rintro (front | behind)
      · exact absurd (List.mem_takeWhile_imp front) (by decide)
      · exact behind
  rw [trim, List.mem_reverse, kept, List.mem_reverse, kept]

/-- What the gateway promises of a message that it accepts, and of the names it accepts: the
server gets one PRIVMSG with the target and the text, and takes the names. -/
structure Carried (target text : JsString) (name : MessageTarget) (sent : MessageText) : Prop where
  line : SentAs (formatLine (js "PRIVMSG") [name.val] sent.val) (ascii "PRIVMSG")
    [utf8 target, utf8 (blankLineBreaks (trim text))]
  nicknames (value : JsonValue) : validNickname value = true →
    ∃ nickname, value = .string nickname ∧ Irc.IrcUtil.isValidNickname (utf8 nickname) = true
  channels (value : JsonValue) : validChannel value = true →
    ∃ channel, value = .string channel ∧ Irc.IrcUtil.isValidChannelName (utf8 channel) = true

/-- The entry of a message that is not stored; its nick and connection are not in its line. -/
def lineEntry (target : MessageTarget) (text : MessageText) : Entry where
  connection := 0
  target := target
  nick := []
  text := text
  recorded := false
  recorded_channel recorded := by simp at recorded

/-- A message that `privmsg` sends arrives unaltered exactly when its text has no NUL. -/
theorem privmsg_carried_iff {target text : JsString} {name : MessageTarget} {sent : MessageText}
    (targetAccepted : checkTarget (.string target) = some name)
    (textAccepted : checkText (.string text) = some sent) :
    Carried target text name sent ↔ 0 ∉ text := by
  have sameTarget : name.val = target := by
    simp only [checkTarget] at targetAccepted
    split at targetAccepted
    · rw [Option.some.injEq] at targetAccepted
      rw [← targetAccepted]
    · simp at targetAccepted
  have sameText : sent.val = trim text := by
    simp only [checkText, JsonValue.toText, Option.bind_some] at textAccepted
    split at textAccepted
    · rw [Option.some.injEq] at textAccepted
      rw [← textAccepted]
    · simp at textAccepted
  have line : formatLine (js "PRIVMSG") [name.val] sent.val =
      (Line.message (lineEntry name sent)).text := rfl
  constructor
  · intro carried nul
    have parsed := carried.line.parsed
    have nulSent : 0 ∈ (lineEntry name sent).text.val := by
      rwa [lineEntry, sameText, zero_mem_trim]
    rw [line, parse_message_nul _ nulSent] at parsed
    simp at parsed
  · intro visible
    constructor
    case line =>
      rw [line]
      constructor
      case framed => exact findLine_message (lineEntry name sent)
      case parsed =>
        have visibleSent : 0 ∉ (lineEntry name sent).text.val := by
          rwa [lineEntry, sameText, zero_mem_trim]
        rw [parse_message _ visibleSent, Entry.sentText, lineEntry, sameTarget, sameText]
    case nicknames =>
      intro value valid
      cases value with
      | string nickname => exact ⟨nickname, rfl, isValidNickname_of_matches valid⟩
      | other truthy text => simp [validNickname] at valid
    case channels =>
      intro value valid
      cases value with
      | string channel => exact ⟨channel, rfl, isValidChannelName_of_matches valid⟩
      | other truthy text => simp [validChannel] at valid

theorem privmsg_carried_iff_room : ∃ name sent,
    checkTarget (.string (js "#room")) = some name ∧
    checkText (.string (js " hi there ")) = some sent ∧
    (Carried (js "#room") (js " hi there ") name sent ↔ 0 ∉ js " hi there ") :=
  ⟨⟨js "#room", by decide⟩, ⟨js "hi there", by decide⟩, by decide, by decide,
    privmsg_carried_iff (by decide) (by decide)⟩

/-- The gateway sends a text with a NUL, and the server drops its line. -/
theorem nul_dropped : ∃ name sent, checkTarget (.string (js "#room")) = some name ∧
    checkText (.string [0x41, 0, 0x42]) = some sent ∧
    Irc.Parser.parse (formatLine (js "PRIVMSG") [name.val] sent.val) = none ∧
    ¬Carried (js "#room") [0x41, 0, 0x42] name sent := by
  refine ⟨⟨js "#room", by decide⟩, ⟨[0x41, 0, 0x42], by decide⟩, by decide, by decide, ?_, ?_⟩
  · decide +kernel
  · intro carried
    have parsed := carried.line.parsed
    rw [show Irc.Parser.parse _ = none by decide +kernel] at parsed
    simp at parsed

end IrcPlatform.Gateway
