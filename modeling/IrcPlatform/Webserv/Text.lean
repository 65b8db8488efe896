import IrcPlatform.Library.Search
import IrcPlatform.Library.Streams

/-!
# Texts of the web server

The helpers of `Config.cpp` and the token rule of HTTP.
-/

namespace IrcPlatform.Webserv

def isTrimmed (c : UInt8) : Bool := c == 32 || c == 9 || c == 13 || c == 10

def trim (value : Bytes) : Bytes :=
  ((value.dropWhile isTrimmed).reverse.dropWhile isTrimmed).reverse

def lowerByte (c : UInt8) : UInt8 := if byte 'A' ≤ c && c ≤ byte 'Z' then c + 32 else c

def lower (value : Bytes) : Bytes := value.map lowerByte

def tokenCharacter (c : UInt8) : Bool :=
  isAsciiLetter c || isAsciiDigit c || (ascii "!#$%&'*+-.^_`|~").contains c

def validToken (value : Bytes) : Bool := !value.isEmpty && value.all tokenCharacter

end IrcPlatform.Webserv
