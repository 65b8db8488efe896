import Mathlib.Data.List.TakeDrop
import IrcPlatform.Gateway.Encoding
import IrcPlatform.Gateway.System

/-!
# The line of a browser message at the server

The server reads the line that the gateway sends for a browser message as a
PRIVMSG with the target and the text of the message, unless the text has a NUL:
such a line is dropped.
-/

namespace IrcPlatform.Gateway

open JsString

/-! ## Names -/

/-- A visible ASCII character other than the two that separate parameters. -/
def isPlain (c : UInt16) : Bool := 0x20 < c && c < 0x80 && c != unit ',' && c != unit ':'

theorem isPlain_of_isNicknameCharacter {c : UInt16} (valid : isNicknameCharacter c = true) :
    isPlain c = true := by
  have range : ∀ low high : UInt16, (unit ':' < low ∧ high < 0x80) ∨
      (unit ',' < low ∧ high < unit ':') → (low ≤ c ∧ c ≤ high) → isPlain c = true := by
    intro low high bounds between
    simp only [isPlain, Bool.and_eq_true, decide_eq_true_eq, bne_iff_ne, ne_eq,
      ← UInt16.toNat_inj, UInt16.lt_iff_toNat_lt, UInt16.le_iff_toNat_le, unit] at bounds between ⊢
    simp at bounds ⊢
    omega
  simp only [isNicknameCharacter, isLetter, isDigit, Bool.or_eq_true, Bool.and_eq_true,
    decide_eq_true_eq, beq_iff_eq, or_assoc] at valid
  rcases valid with upper | lower | digit | rfl | rfl | rfl | rfl | rfl | rfl | rfl | rfl | rfl
  · exact range _ _ (by decide) upper
  · exact range _ _ (by decide) lower
  · exact range _ _ (by decide) digit
  all_goals decide

theorem target_plain (target : MessageTarget) :
    target.val ≠ [] ∧ ∀ c ∈ target.val, isPlain c = true := by
  rcases target with ⟨name, valid⟩
  cases name with
  | nil => simp [matchesChannel, matchesNickname] at valid
  | cons first rest =>
      refine ⟨by simp, ?_⟩
      simp only [matchesChannel, matchesNickname, Bool.or_eq_true, Bool.and_eq_true, beq_iff_eq,
        List.all_eq_true, decide_eq_true_eq] at valid
      have letters : ∀ c, isLetter c = true ∨ isDigit c = true ∨ c = unit '_' ∨ c = unit '-' →
          isPlain c = true := by
        intro c allowed
        apply isPlain_of_isNicknameCharacter
        simp only [isNicknameCharacter, Bool.or_eq_true, beq_iff_eq]
        tauto
      intro c listed
      rcases valid with ⟨⟨⟨rfl, _⟩, _⟩, allowed⟩ | ⟨⟨letter, _⟩, allowed⟩
      · rcases List.mem_cons.mp listed with rfl | listed
        · decide
        · apply letters c
          rcases allowed c listed with ((letter | digit) | score) | dash
          · exact Or.inl letter
          · exact Or.inr (Or.inl digit)
          · exact Or.inr (Or.inr (Or.inl score))
          · exact Or.inr (Or.inr (Or.inr dash))
      · rcases List.mem_cons.mp listed with rfl | listed
        · exact letters c (Or.inl letter)
        · exact isPlain_of_isNicknameCharacter (allowed c listed)

/-- The bytes of a plain name. -/
theorem utf8_plain {name : JsString} (plain : ∀ c ∈ name, isPlain c = true) :
    ∀ c ∈ utf8 name, c ≠ 0 ∧ c ≠ byte ' ' ∧ c ≠ byte ':' ∧ c ≠ byte ',' := by
  have small : ∀ c ∈ name, c < 0x80 := by
    intro c listed
    have := plain c listed
    simp only [isPlain, Bool.and_eq_true, decide_eq_true_eq] at this
    exact this.1.1.2
  rw [utf8_of_ascii small]
  intro c listed
  rcases List.mem_map.mp listed with ⟨original, found, rfl⟩
  have valid := plain original found
  simp only [isPlain, Bool.and_eq_true, decide_eq_true_eq, bne_iff_ne, ne_eq, unit,
    UInt16.lt_iff_toNat_lt, ← UInt16.toNat_inj] at valid
  simp only [ne_eq, ← UInt8.toNat_inj, Nat.toUInt8, UInt8.toNat_ofNat', byte]
  simp at valid ⊢
  omega

/-! ## The line -/

theorem removeSeparators_of_plain {name : JsString} (plain : ∀ c ∈ name, isPlain c = true) :
    removeSeparators name = name := by
  apply List.filter_eq_self.mpr
  intro c listed
  have valid := plain c listed
  simp only [isPlain, isLineBreak, Bool.and_eq_true, decide_eq_true_eq, bne_iff_ne, ne_eq,
    Bool.not_eq_true', Bool.or_eq_false_iff, beq_eq_false_iff_ne, ← UInt16.toNat_inj,
    UInt16.lt_iff_toNat_lt] at valid ⊢
  simp at valid ⊢
  omega

/-- The text as the server gets it. -/
def Entry.sentText (entry : Entry) : Bytes := utf8 (blankLineBreaks entry.text.val)

theorem text_message (entry : Entry) : (Line.message entry).text =
    ascii "PRIVMSG" ++ byte ' ' :: (utf8 entry.target.val ++
      byte ' ' :: byte ':' :: entry.sentText) := by
  rcases target_plain entry.target with ⟨nonempty, plain⟩
  have small : ∀ c ∈ entry.target.val, c < 0x80 := by
    intro c listed
    have := plain c listed
    simp only [isPlain, Bool.and_eq_true, decide_eq_true_eq] at this
    exact this.1.1.2
  have hasText : (blankLineBreaks entry.text.val).isEmpty = false := by
    have := entry.text.property.1
    simp [blankLineBreaks, this]
  have joined : (([js "PRIVMSG", entry.target.val].intersperse [0x20]).flatten : JsString) =
      js "PRIVMSG " ++ entry.target.val := by
    simp [js]
  unfold Line.text formatLine
  simp only [List.map_cons, List.map_nil, removeSeparators_of_plain plain, hasText, joined,
    Bool.false_eq_true, if_false, List.append_assoc]
  rw [utf8_append_of_ascii (ascii_of_all rfl), utf8_append_of_ascii small,
    utf8_append_of_ascii (ascii_of_all rfl), utf8_of_ascii small]
  rfl

theorem takeToken_append {token : Bytes} (spaceless : ∀ c ∈ token, c ≠ byte ' ')
    (rest : Bytes) :
    Irc.Parser.takeToken (token ++ byte ' ' :: rest) = (token, byte ' ' :: rest) := by
  have passes : ∀ c ∈ token, (c != byte ' ') = true := fun c listed => by
    simpa using spaceless c listed
  unfold Irc.Parser.takeToken
  rw [List.span_eq_takeWhile_dropWhile, List.takeWhile_append_of_pos passes,
    List.dropWhile_append_of_pos passes]
  simp

/-- A PRIVMSG line with one target and a text in the last parameter. -/
theorem parse_privmsg {target text : Bytes} (named : target ≠ [])
    (clean : ∀ c ∈ target, c ≠ 0 ∧ c ≠ byte ' ' ∧ c ≠ byte ':' ∧ c ≠ byte ',')
    (visible : 0 ∉ text) :
    Irc.Parser.parse
      (ascii "PRIVMSG" ++ byte ' ' :: (target ++ byte ' ' :: byte ':' :: text)) =
      some { linePrefix := [], command := ascii "PRIVMSG", params := [target, text] } := by
  have noNul : (ascii "PRIVMSG" ++ byte ' ' :: (target ++ byte ' ' :: byte ':' :: text)).contains
      0 = false := by
    rw [List.contains_eq_mem, decide_eq_false_iff_not]
    intro listed
    simp only [List.mem_append, List.mem_cons] at listed
    rcases listed with listed | same | listed | same | same | listed
    · exact absurd listed (by decide)
    · exact absurd same (by decide)
    · exact (clean 0 listed).1 rfl
    · exact absurd same (by decide)
    · exact absurd same (by decide)
    · exact visible listed
  rcases List.exists_cons_of_ne_nil named with ⟨first, others, rfl⟩
  have ⟨_, notSpace, notColon, _⟩ := clean first List.mem_cons_self
  have token : ∀ c ∈ first :: others, c ≠ byte ' ' := fun c listed => (clean c listed).2.1
  have last : Irc.Parser.parseParams 14 (byte ' ' :: byte ':' :: text) = some [text] := by
    unfold Irc.Parser.parseParams
    simp [Irc.Parser.skipSpaces, show byte ':' ≠ byte ' ' by decide]
  have params : Irc.Parser.parseParams Irc.Parser.maxParams
      (byte ' ' :: (first :: others ++ byte ' ' :: byte ':' :: text)) =
      some [first :: others, text] := by
    rw [Irc.Parser.maxParams, Irc.Parser.parseParams]
    simp only [Irc.Parser.skipSpaces, List.cons_append, List.dropWhile_cons, beq_self_eq_true,
      if_true, beq_eq_false_iff_ne.mpr notSpace, Bool.false_eq_true, if_false, notColon]
    rw [← List.cons_append, takeToken_append token]
    simp only [last, Option.map_some]
  have command : Irc.Parser.parseCommand [] (ascii "PRIVMSG" ++ byte ' ' ::
      (first :: others ++ byte ' ' :: byte ':' :: text)) =
      some { linePrefix := [], command := ascii "PRIVMSG", params := [first :: others, text] } := by
    unfold Irc.Parser.parseCommand
    rw [takeToken_append (by decide +kernel)]
    simp only [params]
    rfl
  unfold Irc.Parser.parse
  rw [noNul]
  exact command

theorem parse_message (entry : Entry) (visible : 0 ∉ entry.text.val) :
    Irc.Parser.parse (Line.message entry).text =
      some { linePrefix := [], command := ascii "PRIVMSG",
             params := [utf8 entry.target.val, entry.sentText] } := by
  rcases target_plain entry.target with ⟨nonempty, plain⟩
  rw [text_message]
  refine parse_privmsg (utf8_ne_nil nonempty) (utf8_plain plain) ?_
  rwa [Entry.sentText, zero_mem_utf8_iff, zero_mem_blankLineBreaks]

/-- A line with a NUL is dropped. -/
theorem parse_message_nul (entry : Entry) (nul : 0 ∈ entry.text.val) :
    Irc.Parser.parse (Line.message entry).text = none := by
  have listed : 0 ∈ (Line.message entry).text := by
    rw [text_message]
    simp only [List.mem_append, List.mem_cons]
    refine Or.inr (Or.inr (Or.inr (Or.inr (Or.inr ?_))))
    rwa [Entry.sentText, zero_mem_utf8_iff, zero_mem_blankLineBreaks]
  unfold Irc.Parser.parse
  rw [if_pos (by simpa using listed)]

/-! ## How the server takes it -/

variable {server : Irc.Server} {fd : Int}

/-- The message of a registered client is taken exactly when its text has no NUL. -/
theorem takesPrivmsg_message {client : Irc.Client}
    (found : server.findClientByFd fd = some client) (registered : client.registered = true)
    (entry : Entry) : server.takesPrivmsg fd (Line.message entry).text =
      if 0 ∈ entry.text.val then none
      else some (client, utf8 entry.target.val, entry.sentText) := by
  unfold Irc.Server.takesPrivmsg
  rw [found]
  by_cases nul : 0 ∈ entry.text.val
  · rw [if_pos nul, parse_message_nul entry nul]
  · have nonempty : entry.sentText.isEmpty = false := by
      have hasText : blankLineBreaks entry.text.val ≠ [] := by
        simpa [blankLineBreaks] using entry.text.property.1
      rw [List.isEmpty_eq_false_iff]
      exact utf8_ne_nil hasText
    rw [if_neg nul, parse_message entry nul]
    simp [registered, nonempty]

/-- A channel message is accepted exactly when the connection is a member of the channel
and the text has no NUL. -/
theorem acceptsFromMember_message_iff (reached : Irc.serverSystem.Reachable server)
    (entry : Entry) (channelName : matchesChannel entry.target.val = true) :
    server.acceptsFromMember fd (Line.message entry).text (utf8 entry.target.val) = true ↔
      0 ∉ entry.text.val ∧
        (server.findChannel (utf8 entry.target.val)).any (·.hasMember fd) = true := by
  have hash : (utf8 entry.target.val).head? = some (byte '#') := by
    unfold matchesChannel at channelName
    split at channelName
    · simp at channelName
    next first rest same =>
      simp only [Bool.and_eq_true, beq_iff_eq] at channelName
      rw [same, channelName.1.1.1, utf8_cons_of_lt (by decide)]
      rfl
  constructor
  · intro accepted
    unfold Irc.Server.acceptsFromMember at accepted
    split at accepted
    · simp at accepted
    next client target text taken =>
      simp only [Bool.and_eq_true, beq_iff_eq] at accepted
      rcases accepted with ⟨⟨rfl, _⟩, member⟩
      refine ⟨?_, member⟩
      intro nul
      simp [Irc.Server.takesPrivmsg, parse_message_nul entry nul] at taken
  · rintro ⟨visible, member⟩
    rcases (Option.any_eq_true _ _).mp member with ⟨channel, foundChannel, isMember⟩
    have listed : fd ∈ channel.members := by simpa [Irc.Channel.hasMember] using isMember
    obtain ⟨client, found, registered⟩ :=
      (Irc.Server.relationsHold_of_consistent
        (Irc.Server.reachable_consistent reached)).member_registered
        _ channel foundChannel fd listed
    unfold Irc.Server.acceptsFromMember
    rw [takesPrivmsg_message found registered, if_neg visible]
    simp [hash, member]

end IrcPlatform.Gateway
