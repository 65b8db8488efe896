import Std.Data.ExtTreeMap
import IrcPlatform.Webserv.Chunked

/-!
# HTTP requests

`parseRequest` and `decodePath`. The parser is given all bytes received so far
and a fresh request; only a request with the verdict `REQUEST_OK` is read by the
server, so only that verdict carries it.
-/

namespace IrcPlatform.Webserv

open Std

structure Request where
  method : Bytes := []
  target : Bytes := []
  path : Bytes := []
  query : Bytes := []
  version : Bytes := []
  headers : ExtTreeMap Bytes Bytes := ∅
  body : Bytes := []
deriving DecidableEq

inductive ParseResult where
  | incomplete
  | ok (request : Request)
  | bad
  | tooLarge
  | versionNotSupported
  /-- `std::out_of_range` leaves the parser. -/
  | outOfRange
  /-- The parser does not return. -/
  | spins
deriving DecidableEq

/-! ## Paths -/

/-- A control character. -/
def isControl (c : UInt8) : Bool := c < 0x20 || c == 0x7f

/-- The byte of an escape sequence with two characters; `none` where it is refused. -/
def decodeEscape (first second : UInt8) : Option UInt8 :=
  (wholeHex 32 [first, second]).bind fun value =>
    if value = 0 ∨ value < 0x20 ∨ value = 0x7f then none else some value.toUInt8

/-- The loop over the characters of the encoded path. -/
def decodeCharacters : Bytes → Option Bytes
  | [] => some []
  | c :: rest =>
      if c = byte '%' then
        match rest with
        | first :: second :: rest =>
            (decodeEscape first second).bind fun value => (decodeCharacters rest).map (value :: ·)
        | _ => none
      else if isControl c || c == byte '\\' then none
      else (decodeCharacters rest).map (c :: ·)

/-- The loop over the segments that follow the first slash of the decoded path. -/
def joinSegments (output : Bytes) : List Bytes → Option Bytes
  | [] => some output
  | segment :: rest =>
      if segment = ascii ".." then none
      else if segment = [] ∨ segment = ascii "." then joinSegments output rest
      else joinSegments
        ((if 1 < output.length then output ++ ascii "/" else output) ++ segment) rest

def decodePath (input : Bytes) : Option Bytes :=
  (decodeCharacters input).bind fun decoded =>
    (joinSegments (ascii "/") ((decoded.drop 1).splitOn (byte '/'))).map fun output =>
      if 1 < decoded.length && decoded.getLast? == some (byte '/') &&
          output.getLast? != some (byte '/') then output ++ ascii "/"
      else output

/-! ## The head -/

/-- `std::getline` and the removal of the carriage return. -/
def nextLine (text : Bytes) : Option (Bytes × Bytes) :=
  (getline text).map fun (line, rest) =>
    (if line.getLast? = some 13 then line.dropLast else line, rest)

/-- The three words of the request line; `none` where there are more or fewer. -/
def requestWords (line : Bytes) : Option (Bytes × Bytes × Bytes) :=
  (readWord line).bind fun (method, rest) => (readWord rest).bind fun (target, rest) =>
    (readWord rest).bind fun (version, rest) =>
      match readWord rest with
      | some _ => none
      | none => some (method, target, version)

/-- The loop over the header lines; the fuel is the number of bytes. -/
def readHeaders : Nat → Bytes → ExtTreeMap Bytes Bytes → Option (ExtTreeMap Bytes Bytes)
  | 0, _, headers => some headers
  | fuel + 1, text, headers =>
      match nextLine text with
      | none => some headers
      | some (line, rest) =>
          if !line.contains (byte ':') then none
          else
            let key := lower (trim (line.takeWhile (· != byte ':')))
            if !validToken key || headers.contains key then none
            else readHeaders fuel rest (headers.insert key
              (trim ((line.dropWhile (· != byte ':')).drop 1)))

/-- Everything before the payload. -/
def parseHead (head : Bytes) : Except ParseResult Request :=
  match nextLine head with
  | none => .error .bad
  | some (line, rest) =>
      match requestWords line with
      | none => .error .bad
      | some (method, target, version) =>
          if !validToken method then .error .bad
          else if version ≠ ascii "HTTP/1.1" then .error .versionNotSupported
          else if target.head? ≠ some (byte '/') then .error .bad
          else
            match readHeaders rest.length rest ∅ with
            | none => .error .bad
            | some headers =>
                if !headers.contains (ascii "host") then .error .bad
                else
                  match decodePath (target.takeWhile (· != byte '?')) with
                  | none => .error .bad
                  | some path => .ok
                      { method := method, target := target, path := path
                        query := (target.dropWhile (· != byte '?')).drop 1
                        version := version, headers := headers }

/-! ## The body -/

/-- The announced length of the body; `none` where it is malformed. -/
def contentLength (text : Bytes) : Option Nat :=
  if text.head? = none ∨ text.head? = some (byte '-') ∨ text.head? = some (byte '+') then none
  else
    let converted := strtoul text
    if converted.outOfRange || !converted.rest.isEmpty then none else some converted.value

def ParseResult.ofChunked (maxBody : Nat) (request : Request) : ChunkedResult → ParseResult
  | .rejected => .bad
  | .incomplete body => if maxBody < body.length then .tooLarge else .incomplete
  | .complete body =>
      if maxBody < body.length then .tooLarge else .ok { request with body := body }
  | .outOfRange => .outOfRange
  | .spins => .spins

/-- A body whose length is known. -/
def takeBody (maxBody length : Nat) (request : Request) (payload : Bytes) : ParseResult :=
  if maxBody < length then .tooLarge
  else if payload.length < length then .incomplete
  else .ok { request with body := payload.take length }

def parseBody (maxBody : Nat) (request : Request) (payload : Bytes) : ParseResult :=
  match request.headers[ascii "transfer-encoding"]?, request.headers[ascii "content-length"]? with
  | some _, some _ => .bad
  | some coding, none =>
      if lower (trim coding) ≠ ascii "chunked" then .bad
      else .ofChunked maxBody request (parseChunked payload)
  | none, some text =>
      match contentLength text with
      | none => .bad
      | some length => takeBody maxBody length request payload
  | none, none =>
      if request.method = ascii "POST" then .bad else takeBody maxBody 0 request payload

/-- The limit for a head without an end. -/
def maxOpenHead : Nat := 65536

def parseRequest (raw : Bytes) (maxBody : Nat) : ParseResult :=
  match findFrom blankLine raw 0 with
  | none => if maxOpenHead < raw.length then .bad else .incomplete
  | some headerEnd =>
      match parseHead (raw.take headerEnd) with
      | .error verdict => verdict
      | .ok request => parseBody maxBody request (raw.drop (headerEnd + 4))

end IrcPlatform.Webserv
