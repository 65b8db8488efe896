import IrcPlatform.Library.Bytes

/-!
# IRC string rules

Case mapping, name validation, number parsing and text sanitisation of the IRC
server. Every function is total and stateless.
-/

namespace IrcPlatform.Irc.IrcUtil

def ircMaxLine : Nat := 512
def ircMaxContent : Nat := 510
def nicknameMaxLength : Nat := 9
def channelNameMaxLength : Nat := 50

/-- `std::numeric_limits<std::size_t>::max()` on the 64-bit targets. -/
def sizeMax : Nat := 2 ^ 64 - 1

/-- RFC 2812 special characters that may appear in a nickname. -/
def isNicknameSpecial (c : UInt8) : Bool :=
  c == byte '[' || c == byte ']' || c == byte '\\' || c == byte '`' || c == byte '_' ||
    c == byte '^' || c == byte '{' || c == byte '|' || c == byte '}'

def toUpperAscii (value : Bytes) : Bytes :=
  value.map fun c => if byte 'a' ≤ c && c ≤ byte 'z' then c - byte 'a' + byte 'A' else c

/-- One byte of the IRC case mapping. -/
def foldByte (c : UInt8) : UInt8 :=
  if byte 'A' ≤ c && c ≤ byte 'Z' then c - byte 'A' + byte 'a'
  else if c == byte '[' then byte '{'
  else if c == byte ']' then byte '}'
  else if c == byte '\\' then byte '|'
  else if c == byte '^' then byte '~'
  else c

def ircCaseFold (value : Bytes) : Bytes := value.map foldByte

def normalizeChannelName (value : Bytes) : Bytes := ircCaseFold value

def isValidNickname (value : Bytes) : Bool :=
  match value with
  | [] => false
  | first :: rest =>
      value.length ≤ nicknameMaxLength &&
        (isAsciiLetter first || isNicknameSpecial first) &&
        rest.all fun c => isAsciiLetter c || isAsciiDigit c || isNicknameSpecial c || c == byte '-'

def isValidChannelName (value : Bytes) : Bool :=
  match value with
  | [] => false
  | first :: rest =>
      2 ≤ value.length && value.length ≤ channelNameMaxLength && first == byte '#' &&
        rest.all fun c =>
          !(c == byte ' ' || c == byte ',' || c == byte ':' ||
            c == 7 || c == 13 || c == 10 || c == 0)

/-- The digit loop of `parsePositiveSize`, with `size_t` arithmetic modulo `2 ^ 64`. -/
def parsePositiveSizeLoop : Bytes → Nat → Option Nat
  | [], parsed => some parsed
  | c :: rest, parsed =>
      if !isAsciiDigit c then none
      else
        let digit := (c - byte '0').toNat
        if (sizeMax - digit) / 10 < parsed then none
        else parsePositiveSizeLoop rest ((parsed * 10 + digit) % 2 ^ 64)

/-- The stored result, or `none` where the function returns false and stores nothing. -/
def parsePositiveSize (value : Bytes) : Option Nat :=
  if value.isEmpty then none
  else
    match parsePositiveSizeLoop value 0 with
    | none => none
    | some parsed => if parsed = 0 then none else some parsed

def fitsIrcLine (withoutCrlf : Bytes) : Bool := withoutCrlf.length ≤ ircMaxContent

def isSafeToken (value : Bytes) : Bool :=
  match value with
  | [] => false
  | first :: _ =>
      first != byte ':' && value.all fun c => !(c == byte ' ' || c == 13 || c == 10 || c == 0)

def sanitizeMessageText (value : Bytes) : Bytes :=
  value.filter fun c => c != 13 && c != 10 && c != 0

/-- Empty elements are kept, and the empty string has no element at all. -/
def splitCommaList (value : Bytes) : List Bytes :=
  if value.isEmpty then [] else value.splitOn (byte ',')

theorem foldByte_foldByte (c : UInt8) : foldByte (foldByte c) = foldByte c := by
  rcases c with ⟨⟨value⟩⟩
  revert value
  decide +kernel

@[simp]
theorem ircCaseFold_ircCaseFold (value : Bytes) :
    ircCaseFold (ircCaseFold value) = ircCaseFold value := by
  simp [ircCaseFold, foldByte_foldByte, Function.comp_def]

@[simp]
theorem normalizeChannelName_normalizeChannelName (value : Bytes) :
    normalizeChannelName (normalizeChannelName value) = normalizeChannelName value :=
  ircCaseFold_ircCaseFold value

/-- The case mapping moves no byte that a channel name must start with or avoid. -/
theorem foldByte_special (c : UInt8) :
    (foldByte c == byte '#') = (c == byte '#') ∧
      (foldByte c == byte ' ' || foldByte c == byte ',' || foldByte c == byte ':' ||
        foldByte c == 7 || foldByte c == 13 || foldByte c == 10 || foldByte c == 0) =
      (c == byte ' ' || c == byte ',' || c == byte ':' || c == 7 || c == 13 || c == 10 ||
        c == 0) := by
  rcases c with ⟨⟨value⟩⟩
  revert value
  decide +kernel

theorem isValidChannelName_normalize (value : Bytes) :
    isValidChannelName (normalizeChannelName value) = isValidChannelName value := by
  cases value with
  | nil => rfl
  | cons first rest =>
      simp only [isValidChannelName, normalizeChannelName, ircCaseFold, List.map_cons,
        List.length_cons, List.length_map, List.all_map, (foldByte_special first).1,
        Function.comp_def, (foldByte_special _).2]

end IrcPlatform.Irc.IrcUtil
