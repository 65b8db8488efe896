import IrcPlatform.Library.Bytes

/-!
# Strings of the gateway

A JavaScript string is a list of UTF-16 code units. This file has the operations
the gateway applies to them: trimming, the two name patterns, the replacements
made before a line is sent, the encoding as UTF-8, and the decoding of what the socket
receives.
-/

namespace IrcPlatform.Gateway

abbrev JsString := List UInt16

/-- The code units of an ASCII literal. -/
def js (text : String) : JsString := text.toList.map fun c => c.toNat.toUInt16

def unit (character : Char) : UInt16 := character.toNat.toUInt16

namespace JsString

def isLineBreak (c : UInt16) : Bool := c == 10 || c == 13

/-- White space and line terminators, as `String.prototype.trim` removes them. -/
def isWhiteSpace (c : UInt16) : Bool :=
  (9 ≤ c && c ≤ 13) || c == 0x20 || c == 0xa0 || c == 0x1680 ||
    (0x2000 ≤ c && c ≤ 0x200a) || c == 0x2028 || c == 0x2029 || c == 0x202f ||
    c == 0x205f || c == 0x3000 || c == 0xfeff

def trim (text : JsString) : JsString :=
  ((text.dropWhile isWhiteSpace).reverse.dropWhile isWhiteSpace).reverse

def isLetter (c : UInt16) : Bool :=
  (unit 'A' ≤ c && c ≤ unit 'Z') || (unit 'a' ≤ c && c ≤ unit 'z')

def isDigit (c : UInt16) : Bool := unit '0' ≤ c && c ≤ unit '9'

def lowerLetter (c : UInt16) : UInt16 :=
  if unit 'A' ≤ c && c ≤ unit 'Z' then c + 32 else c

/-- `toLowerCase` on the ASCII strings it is applied to. -/
def toLowerCase (text : JsString) : JsString := text.map lowerLetter

def upperLetter (c : UInt16) : UInt16 :=
  if unit 'a' ≤ c && c ≤ unit 'z' then c - 32 else c

/-- `toUpperCase` on the ASCII strings it is applied to. -/
def toUpperCase (text : JsString) : JsString := text.map upperLetter

/-- `split(/\s+/).filter(Boolean)`. -/
def words (text : JsString) : List JsString :=
  (text.splitOnP isWhiteSpace).filter (!·.isEmpty)

/-- `replace(/[\r\n ]/g, "")`. -/
def removeSeparators (text : JsString) : JsString :=
  text.filter fun c => !(isLineBreak c || c == 0x20)

/-- `replace(/[\r\n]/g, " ")`. -/
def blankLineBreaks (text : JsString) : JsString :=
  text.map fun c => if isLineBreak c then 0x20 else c

def isHighSurrogate (c : UInt16) : Bool := 0xd800 ≤ c && c ≤ 0xdbff
def isLowSurrogate (c : UInt16) : Bool := 0xdc00 ≤ c && c ≤ 0xdfff

/-- Encoding of a code unit that is not half of a pair; a lone surrogate is replaced. -/
def utf8Unit (c : UInt16) : Bytes :=
  let code := c.toNat
  if code < 0x80 then [code.toUInt8]
  else if code < 0x800 then [(0xc0 + code / 0x40).toUInt8, (0x80 + code % 0x40).toUInt8]
  else if isHighSurrogate c || isLowSurrogate c then [0xef, 0xbf, 0xbd]
  else [(0xe0 + code / 0x1000).toUInt8, (0x80 + code / 0x40 % 0x40).toUInt8,
    (0x80 + code % 0x40).toUInt8]

def utf8Pair (high low : UInt16) : Bytes :=
  let point := 0x10000 + (high.toNat - 0xd800) * 0x400 + (low.toNat - 0xdc00)
  [(0xf0 + point / 0x40000).toUInt8, (0x80 + point / 0x1000 % 0x40).toUInt8,
    (0x80 + point / 0x40 % 0x40).toUInt8, (0x80 + point % 0x40).toUInt8]

def utf8 : JsString → Bytes
  | [] => []
  | [c] => utf8Unit c
  | c :: next :: rest =>
      if isHighSurrogate c && isLowSurrogate next then utf8Pair c next ++ utf8 rest
      else utf8Unit c ++ utf8 (next :: rest)

/-- The code units of a code point. -/
def ofCodePoint (point : Nat) : JsString :=
  if point < 0x10000 then [point.toUInt16]
  else [(0xd800 + (point - 0x10000) / 0x400).toUInt16,
    (0xdc00 + (point - 0x10000) % 0x400).toUInt16]

/-- State of the UTF-8 decoder: the continuation bytes it still needs, the range that the
next one must be in, and the bits read so far. -/
structure Utf8Decoder where
  needed : Nat := 0
  lower : Nat := 0x80
  upper : Nat := 0xbf
  point : Nat := 0

/-- A byte between two characters. -/
def decodeLead (lead : UInt8) : JsString × Utf8Decoder :=
  let value := lead.toNat
  if value < 0x80 then ([value.toUInt16], {})
  else if 0xc2 ≤ value && value ≤ 0xdf then ([], { needed := 1, point := value - 0xc0 })
  else if 0xe0 ≤ value && value ≤ 0xef then
    ([], { needed := 2, lower := if value = 0xe0 then 0xa0 else 0x80,
           upper := if value = 0xed then 0x9f else 0xbf, point := value - 0xe0 })
  else if 0xf0 ≤ value && value ≤ 0xf4 then
    ([], { needed := 3, lower := if value = 0xf0 then 0x90 else 0x80,
           upper := if value = 0xf4 then 0x8f else 0xbf, point := value - 0xf0 })
  else ([0xfffd], {})

/-- One byte; an incomplete sequence in front of it gives one replacement character. -/
def decodeByte (decoder : Utf8Decoder) (next : UInt8) : JsString × Utf8Decoder :=
  if decoder.needed = 0 then decodeLead next
  else if decoder.lower ≤ next.toNat && next.toNat ≤ decoder.upper then
    let point := decoder.point * 0x40 + (next.toNat - 0x80)
    if decoder.needed = 1 then (ofCodePoint point, {})
    else ([], { needed := decoder.needed - 1, point := point })
  else
    let restarted := decodeLead next
    (0xfffd :: restarted.1, restarted.2)

def decodeFrom : Utf8Decoder → Bytes → JsString
  | decoder, [] => if decoder.needed = 0 then [] else [0xfffd]
  | decoder, next :: rest =>
      let decoded := decodeByte decoder next
      decoded.1 ++ decodeFrom decoded.2 rest

/-- The text of received bytes, as the socket decodes it. -/
def decodeUtf8 (data : Bytes) : JsString := decodeFrom {} data

end JsString

open JsString

/-- A value of the parsed browser message. A value other than a string keeps whether it is
truthy and what `String(value)` gives; `none` where that throws. -/
inductive JsonValue where
  | string (text : JsString)
  | other (truthy : Bool) (text : Option JsString)
deriving DecidableEq

namespace JsonValue

/-- A member that the browser message lacks. -/
def undefined : JsonValue := other false (some (js "undefined"))

def truthy : JsonValue → Bool
  | string text => !text.isEmpty
  | other truthy _ => truthy

/-- `String(value)`. -/
def toText : JsonValue → Option JsString
  | string text => some text
  | other _ text => text

end JsonValue

/-- A character of a nickname after the first. -/
def isNicknameCharacter (c : UInt16) : Bool :=
  isLetter c || isDigit c || c == unit '_' || c == unit '-' || c == unit '[' || c == unit ']' ||
    c == 0x7b || c == 0x7d || c == unit '\\' || c == 0x60 || c == unit '^'

/-- `NICK_RE`. -/
def matchesNickname : JsString → Bool
  | [] => false
  | first :: rest => isLetter first && rest.length ≤ 8 && rest.all isNicknameCharacter

/-- `CHANNEL_RE`. -/
def matchesChannel : JsString → Bool
  | [] => false
  | first :: rest =>
      first == unit '#' && 1 ≤ rest.length && rest.length ≤ 49 &&
        rest.all fun c => isLetter c || isDigit c || c == unit '_' || c == unit '-'

def validNickname : JsonValue → Bool
  | .string text => matchesNickname text
  | .other _ _ => false

def validChannel : JsonValue → Bool
  | .string text => matchesChannel text
  | .other _ _ => false

/-- A name that passes `validChannel`. -/
abbrev ChannelName := { name : JsString // matchesChannel name = true }

/-- A name that passes `validChannel` or `validNickname`. -/
abbrev MessageTarget :=
  { name : JsString // (matchesChannel name || matchesNickname name) = true }

/-- A text that `privmsg` sends. -/
abbrev MessageText := { text : JsString // text ≠ [] ∧ (utf8 text).length ≤ 420 }

end IrcPlatform.Gateway
