import IrcPlatform.Irc.Lines

/-!
# The shape of a line

A reply is assembled from tokens and from a sanitised text. When the tokens are
safe the reply is not empty, has no byte that could end the line early, and its
first token is the prefix it was built with.
-/

namespace IrcPlatform.Irc

/-- No byte that ends or cuts a line. -/
def CleanText (text : Bytes) : Prop := ∀ c ∈ text, c ≠ 13 ∧ c ≠ 10 ∧ c ≠ 0

theorem cleanText_append {first second : Bytes} (left : CleanText first)
    (right : CleanText second) : CleanText (first ++ second) := by
  intro c listed
  rcases List.mem_append.mp listed with listed | listed
  · exact left c listed
  · exact right c listed

theorem cleanText_nil : CleanText [] := by
  intro c listed
  exact absurd listed List.not_mem_nil

/-- The Boolean form, for literals. -/
theorem cleanText_of_all {text : Bytes}
    (all : (text.all fun c => c != 13 && c != 10 && c != 0) = true) : CleanText text := by
  intro c listed
  have clean := List.all_eq_true.mp all c listed
  simpa [and_assoc] using clean

theorem cleanText_sanitized (text : Bytes) : CleanText (IrcUtil.sanitizeMessageText text) := by
  intro c listed
  have clean := (List.mem_filter.mp listed).2
  simpa [and_assoc] using clean

/-- A content that can be a line of its own. -/
structure CleanLine (line : Bytes) : Prop where
  nonempty : line ≠ []
  clean : CleanText line

/-- A clean line gets its terminator, whatever it ends with. -/
theorem Server.withCrlf_of_clean {line : Bytes} (clean : CleanText line) :
    Server.withCrlf line = line ++ crlf := by
  simp only [Server.withCrlf]
  split
  next ended =>
    rw [Bool.and_eq_true, beq_iff_eq] at ended
    have listed : (13 : UInt8) ∈ line := by
      apply List.mem_of_mem_drop
      rw [ended.2]
      exact List.mem_cons_self
    exact absurd rfl (clean 13 listed).1
  · rfl

/-! ## Tokens -/

theorem isSafeToken_iff {token : Bytes} : IrcUtil.isSafeToken token = true ↔
    token ≠ [] ∧ token.head? ≠ some (byte ':') ∧
      ∀ c ∈ token, c ≠ byte ' ' ∧ c ≠ 13 ∧ c ≠ 10 ∧ c ≠ 0 := by
  cases token with
  | nil => simp [IrcUtil.isSafeToken]
  | cons first rest => simp [IrcUtil.isSafeToken, and_assoc]

section Token

variable {token : Bytes} (safe : IrcUtil.isSafeToken token = true)
include safe

theorem nonempty_of_safe : token ≠ [] := (isSafeToken_iff.mp safe).1

theorem cleanText_of_safe : CleanText token := by
  intro c listed
  exact ((isSafeToken_iff.mp safe).2.2 c listed).2

theorem noSpace_of_safe : byte ' ' ∉ token := by
  intro listed
  exact absurd rfl ((isSafeToken_iff.mp safe).2.2 _ listed).1

end Token

/-- What stands before the first of a given byte is determined by the text. -/
theorem eq_of_terminated {first second text : Bytes} {c : UInt8} (outsideFirst : c ∉ first)
    (outsideSecond : c ∉ second) (head : first ++ [c] <+: text)
    (other : second ++ [c] <+: text) : first = second := by
  have taken : ∀ {part : Bytes}, c ∉ part → part ++ [c] <+: text →
      text.takeWhile (· != c) = part := by
    rintro part outside ⟨rest, rfl⟩
    rw [List.append_assoc, List.takeWhile_append_of_pos]
    · simp
    · intro d listed
      rw [bne_iff_ne]
      rintro rfl
      exact outside listed
  rw [← taken outsideFirst head, taken outsideSecond other]

/-! ## Names -/

def isNicknameByte (c : UInt8) : Bool :=
  isAsciiLetter c || isAsciiDigit c || IrcUtil.isNicknameSpecial c || c == byte '-'

/-- The bytes that a nickname avoids. -/
theorem isNicknameByte_avoids {c : UInt8} (allowed : isNicknameByte c = true) :
    c ≠ byte ' ' ∧ c ≠ byte ':' ∧ c ≠ byte '!' ∧ c ≠ byte '*' ∧ c ≠ 13 ∧ c ≠ 10 ∧ c ≠ 0 := by
  rcases c with ⟨⟨value⟩⟩
  revert value
  decide +kernel

theorem isNicknameByte_of_valid {nickname : Bytes}
    (valid : IrcUtil.isValidNickname nickname = true) :
    nickname ≠ [] ∧ ∀ c ∈ nickname, isNicknameByte c = true := by
  cases nickname with
  | nil => simp [IrcUtil.isValidNickname] at valid
  | cons first rest =>
      simp only [IrcUtil.isValidNickname, Bool.and_eq_true] at valid
      refine ⟨List.cons_ne_nil first rest, ?_⟩
      intro c listed
      simp only [isNicknameByte]
      rcases List.mem_cons.mp listed with rfl | later
      · rcases Bool.or_eq_true_iff.mp valid.1.2 with letter | special
        · simp [letter]
        · simp [special]
      · exact List.all_eq_true.mp valid.2 c later

/-- A dotted address: digits and dots. -/
def isDotted (address : Bytes) : Bool :=
  !address.isEmpty && address.all fun c => isAsciiDigit c || c == byte '.'

theorem isDotted_avoids {c : UInt8} (allowed : (isAsciiDigit c || c == byte '.') = true) :
    c ≠ byte ' ' ∧ c ≠ 13 ∧ c ≠ 10 ∧ c ≠ 0 := by
  rcases c with ⟨⟨value⟩⟩
  revert value
  decide +kernel

/-- The three names of a client have passed their checks. -/
structure WellNamed (client : Client) : Prop where
  nickname : client.nickname ≠ [] → IrcUtil.isValidNickname client.nickname = true
  username : client.username ≠ [] → Server.badUsername client.username = false
  hostname : isDotted client.hostname = true

namespace Reply

/-- The name a numeric reply is addressed to. -/
def targetName (client : Client) : Bytes :=
  if client.nickname.isEmpty then ascii "*" else client.nickname

end Reply

section TargetName

variable {client : Client}
  (valid : client.nickname ≠ [] → IrcUtil.isValidNickname client.nickname = true)
include valid

theorem targetName_bytes : Reply.targetName client ≠ [] ∧
    ∀ c ∈ Reply.targetName client, c ≠ byte ' ' ∧ c ≠ byte ':' ∧ c ≠ byte '!' ∧ c ≠ 13 ∧
      c ≠ 10 ∧ c ≠ 0 := by
  simp only [Reply.targetName]
  split
  · refine ⟨by decide, ?_⟩
    intro c listed
    rw [List.mem_singleton.mp listed]
    decide
  next given =>
    rcases isNicknameByte_of_valid (valid (by simpa using given)) with ⟨nonempty, allowed⟩
    refine ⟨nonempty, ?_⟩
    intro c listed
    rcases isNicknameByte_avoids (allowed c listed) with
      ⟨space, colon, mark, _, return_, feed, nul⟩
    exact ⟨space, colon, mark, return_, feed, nul⟩

theorem safe_targetName_of_valid : IrcUtil.isSafeToken (Reply.targetName client) = true := by
  rcases targetName_bytes valid with ⟨nonempty, bytes⟩
  rw [isSafeToken_iff]
  refine ⟨nonempty, ?_, ?_⟩
  · intro first
    exact (bytes _ (List.mem_of_head? first)).2.1 rfl
  · intro c listed
    rcases bytes c listed with ⟨space, _, _, return_, feed, nul⟩
    exact ⟨space, return_, feed, nul⟩

end TargetName

theorem clientPrefix_head (client : Client) :
    Reply.targetName client ++ [byte '!'] <+: Reply.clientPrefix client := by
  refine ⟨(if client.username.isEmpty then ascii "unknown" else client.username) ++ ascii "@" ++
    (if client.hostname.isEmpty then ascii "0.0.0.0" else client.hostname), ?_⟩
  have mark : ascii "!" = [byte '!'] := rfl
  simp only [Reply.clientPrefix, Reply.targetName, mark, List.append_assoc]

namespace WellNamed

variable {client : Client} (named : WellNamed client)
include named

theorem safe_targetName : IrcUtil.isSafeToken (Reply.targetName client) = true :=
  safe_targetName_of_valid named.nickname

theorem username_bytes : ∀ c ∈ (if client.username.isEmpty then ascii "unknown"
    else client.username), c ≠ byte ' ' ∧ c ≠ 13 ∧ c ≠ 10 ∧ c ≠ 0 := by
  split
  · decide +kernel
  next given =>
    have good := named.username (by simpa using given)
    simp only [Server.badUsername, Bool.or_eq_false_iff] at good
    intro c listed
    have avoided := List.any_eq_false.mp good.2 c listed
    simp only [Bool.or_eq_true, beq_iff_eq, not_or] at avoided
    exact ⟨avoided.1.1.1.1, avoided.1.1.2, avoided.1.2, avoided.2⟩

theorem hostname_bytes : client.hostname.isEmpty = false ∧
    ∀ c ∈ client.hostname, c ≠ byte ' ' ∧ c ≠ 13 ∧ c ≠ 10 ∧ c ≠ 0 := by
  have dotted := named.hostname
  simp only [isDotted, Bool.and_eq_true, Bool.not_eq_true'] at dotted
  refine ⟨dotted.1, ?_⟩
  intro c listed
  exact isDotted_avoids (List.all_eq_true.mp dotted.2 c listed)

theorem clientPrefix_eq : Reply.clientPrefix client =
    Reply.targetName client ++ (ascii "!" ++ (if client.username.isEmpty then ascii "unknown"
      else client.username) ++ ascii "@" ++ client.hostname) := by
  simp only [Reply.clientPrefix, Reply.targetName, named.hostname_bytes.1, Bool.false_eq_true,
    if_false, List.append_assoc]

theorem safe_clientPrefix : IrcUtil.isSafeToken (Reply.clientPrefix client) = true := by
  have safeName := isSafeToken_iff.mp named.safe_targetName
  rw [named.clientPrefix_eq, isSafeToken_iff]
  refine ⟨?_, ?_, ?_⟩
  · simp [safeName.1]
  · rw [List.head?_append_of_ne_nil _ safeName.1]
    exact safeName.2.1
  · intro c listed
    simp only [List.mem_append] at listed
    rcases listed with name | ((mark | user) | at_) | host
    · exact safeName.2.2 c name
    · rw [List.mem_singleton.mp mark]
      decide
    · exact named.username_bytes c user
    · rw [List.mem_singleton.mp at_]
      decide
    · exact named.hostname_bytes.2 c host

end WellNamed

/-- The prefix names the client: before its first exclamation mark stands the nickname. -/
theorem targetName_eq_of_prefix {client other : Client} (named : WellNamed client)
    (namedOther : WellNamed other) (same : Reply.clientPrefix client = Reply.clientPrefix other) :
    Reply.targetName client = Reply.targetName other := by
  have outside : ∀ {client : Client}, WellNamed client →
      byte '!' ∉ Reply.targetName client := by
    intro client named listed
    exact absurd rfl ((targetName_bytes named.nickname).2 _ listed).2.2.1
  apply eq_of_terminated (outside named) (outside namedOther) (clientPrefix_head client)
  rw [same]
  exact clientPrefix_head other

/-! ## Replies -/

namespace Reply

/-- The text at the end of a reply. -/
def trailing (parameters : Bytes) : Bytes :=
  if (IrcUtil.sanitizeMessageText parameters).isEmpty then []
  else ascii " " ++ IrcUtil.sanitizeMessageText parameters

theorem cleanText_trailing (parameters : Bytes) : CleanText (trailing parameters) := by
  simp only [trailing]
  split
  · exact cleanText_nil
  · exact cleanText_append (cleanText_of_all rfl) (cleanText_sanitized parameters)

theorem numeric_eq {serverName : Bytes} {target : Client} {code : Nat}
    (safeServer : IrcUtil.isSafeToken serverName = true)
    (safeTarget : IrcUtil.isSafeToken (targetName target) = true) (small : code ≤ 999)
    (parameters : Bytes) : numeric serverName target code parameters =
      ascii ":" ++ serverName ++ ascii " " ++ threeDigits code ++ ascii " " ++
        targetName target ++ trailing parameters := by
  have notLarge : ¬999 < code := by omega
  rw [targetName] at safeTarget
  simp only [numeric, if_neg notLarge, safeServer, safeTarget, Bool.not_true, Bool.false_eq_true,
    if_false, trailing, targetName]

theorem command_eq {linePrefix word : Bytes} (safePrefix : IrcUtil.isSafeToken linePrefix = true)
    (safeWord : IrcUtil.isSafeToken word = true) (parameters : Bytes) :
    command linePrefix word parameters =
      ascii ":" ++ linePrefix ++ ascii " " ++ word ++ trailing parameters := by
  have given : linePrefix.isEmpty = false := by
    simpa using nonempty_of_safe safePrefix
  simp only [command, safePrefix, safeWord, given, Bool.not_true, Bool.not_false,
    Bool.and_false, Bool.false_eq_true, if_false, trailing]

/-- The codes that replies of the server use. -/
theorem code_bytes : ∀ code ∈ welcomeCodes ++ replyCodes, code ≤ 999 ∧
    ((threeDigits code).all fun c => c != 13 && c != 10 && c != 0) = true := by
  decide +kernel

theorem cleanLine_numeric {serverName : Bytes} {target : Client} {code : Nat}
    (safeServer : IrcUtil.isSafeToken serverName = true)
    (safeTarget : IrcUtil.isSafeToken (targetName target) = true)
    (listed : code ∈ welcomeCodes ++ replyCodes) (parameters : Bytes) :
    CleanLine (numeric serverName target code parameters) := by
  rcases code_bytes code listed with ⟨small, digits⟩
  rw [numeric_eq safeServer safeTarget small]
  refine ⟨by simp [ascii], ?_⟩
  have space : CleanText (ascii " ") := cleanText_of_all rfl
  have colon : CleanText (ascii ":") := cleanText_of_all rfl
  have server := cleanText_append colon (cleanText_of_safe safeServer)
  have coded := cleanText_append (cleanText_append server space) (cleanText_of_all digits)
  exact cleanText_append (cleanText_append (cleanText_append coded space)
    (cleanText_of_safe safeTarget)) (cleanText_trailing parameters)

theorem cleanLine_command {linePrefix word : Bytes}
    (safePrefix : IrcUtil.isSafeToken linePrefix = true)
    (safeWord : IrcUtil.isSafeToken word = true) (parameters : Bytes) :
    CleanLine (command linePrefix word parameters) := by
  rw [command_eq safePrefix safeWord]
  refine ⟨by simp [ascii], ?_⟩
  have space : CleanText (ascii " ") := cleanText_of_all rfl
  have colon : CleanText (ascii ":") := cleanText_of_all rfl
  have prefixed := cleanText_append colon (cleanText_of_safe safePrefix)
  exact cleanText_append (cleanText_append (cleanText_append prefixed space)
    (cleanText_of_safe safeWord)) (cleanText_trailing parameters)

/-- The first token of a reply, with the space after it. -/
theorem head_numeric {serverName : Bytes} {target : Client} {code : Nat}
    (safeServer : IrcUtil.isSafeToken serverName = true)
    (safeTarget : IrcUtil.isSafeToken (targetName target) = true) (small : code ≤ 999)
    (parameters : Bytes) :
    ascii ":" ++ serverName ++ ascii " " <+: numeric serverName target code parameters := by
  rw [numeric_eq safeServer safeTarget small]
  simp only [List.append_assoc]
  exact ⟨_, by simp only [List.append_assoc]; rfl⟩

theorem head_command {linePrefix word : Bytes}
    (safePrefix : IrcUtil.isSafeToken linePrefix = true)
    (safeWord : IrcUtil.isSafeToken word = true) (parameters : Bytes) :
    ascii ":" ++ linePrefix ++ ascii " " <+: command linePrefix word parameters := by
  rw [command_eq safePrefix safeWord]
  simp only [List.append_assoc]
  exact ⟨_, by simp only [List.append_assoc]; rfl⟩

end Reply

end IrcPlatform.Irc
