import IrcPlatform.Webserv.Response

/-!
# Messages

A response as bytes, and the response that the output of a CGI script makes.
-/

namespace IrcPlatform.Webserv

open Std

/-- Header names are compared case-insensitively. -/
def hasHeader (headers : ExtTreeMap Bytes Bytes) (name : Bytes) : Bool :=
  headers.toList.any fun entry => lower entry.1 == name

/-- The policies that every response gets unless it brings its own. -/
def securityHeaders : List (Bytes × Bytes) :=
  [(ascii "x-content-type-options", ascii "nosniff"),
    (ascii "x-frame-options", ascii "DENY"),
    (ascii "referrer-policy", ascii "no-referrer"),
    (ascii "content-security-policy",
      ascii "default-src 'self'; script-src 'self'; style-src 'self' 'unsafe-inline'; " ++
        ascii "img-src 'self' data:; connect-src 'self' ws: wss:; object-src 'none'; " ++
        ascii "base-uri 'none'; frame-ancestors 'none'")]

namespace Response

def statusLine (response : Response) : Bytes :=
  ascii "HTTP/1.1 " ++ decimal response.status ++ ascii " " ++ reasonPhrase response.status

def headerLine (entry : Bytes × Bytes) : Bytes := entry.1 ++ ascii ": " ++ entry.2

/-- The policies that the response does not bring, and then its own headers in their order. -/
def fields (response : Response) : List (Bytes × Bytes) :=
  securityHeaders.filter (fun entry => !hasHeader response.headers entry.1) ++
    response.headers.toList

def serialize (response : Response) : Bytes :=
  response.statusLine ++ crlf ++
    (response.fields.map fun entry => headerLine entry ++ crlf).flatten ++
    ascii "Content-Length: " ++ decimal response.body.length ++ crlf ++
    ascii "Connection: close" ++ crlf ++ crlf ++ response.body

theorem serialize_ne_nil (response : Response) : response.serialize ≠ [] := by
  have some_ : 0 < response.serialize.length := by simp [serialize, crlf]
  exact List.ne_nil_of_length_pos some_

end Response

/-- `stream >> value` for an `int`. -/
def readInt (text : Bytes) : Option Int :=
  let (negative, unsigned) := takeSign (skipStreamSpaces text)
  let digits := unsigned.takeWhile isAsciiDigit
  let value := digits.foldl (fun value c => value * 10 + (c - byte '0').toNat) 0
  if digits.isEmpty then none
  else if negative then (if 2 ^ 31 < value then none else some (-(value : Int)))
  else if 2 ^ 31 ≤ value then none
  else some (value : Int)

namespace CgiHandler

/-- The status that a script asks for. -/
def readStatus (value : Bytes) : Option Nat :=
  (readInt value).bind fun code => if code < 100 ∨ 599 < code then none else some code.toNat

/-- One header line of a script. -/
def addLine (response : Response) (hasContentType : Bool) (line : Bytes) :
    Option (Response × Bool) :=
  if !line.contains (byte ':') then none
  else
    let name := trim (line.takeWhile (· != byte ':'))
    let value := trim ((line.dropWhile (· != byte ':')).drop 1)
    if lower name = ascii "status" then
      (readStatus value).map fun code => ({ response with status := code }, hasContentType)
    else if lower name ≠ ascii "content-length" ∧ lower name ≠ ascii "connection" then
      some ({ response with headers := response.headers.insert name value },
        hasContentType || lower name == ascii "content-type")
    else some (response, hasContentType)

/-- The loop over the header lines; the fuel is the number of bytes. -/
def addLines : Nat → Bytes → Response → Bool → Option (Response × Bool)
  | 0, _, response, hasContentType => some (response, hasContentType)
  | fuel + 1, text, response, hasContentType =>
      match nextLine text with
      | none => some (response, hasContentType)
      | some (line, rest) =>
          (addLine response hasContentType line).bind fun (response, hasContentType) =>
            addLines fuel rest response hasContentType

/-- The header block of an output and what follows it. -/
def splitOutput (output : Bytes) : Option (Bytes × Bytes) :=
  match findFrom blankLine output 0 with
  | some separator => some (output.take separator, output.drop (separator + 4))
  | none =>
      (findFrom [10, 10] output 0).map fun separator =>
        (output.take separator, output.drop (separator + 2))

def makeResponse (disk : Disk) (output : Bytes) (config : ServerConfig) : Response :=
  match splitOutput output with
  | none => ResponseFactory.error disk 500 config
  | some (headers, body) =>
      match addLines headers.length headers { status := 200 } false with
      | none => ResponseFactory.error disk 500 config
      | some (response, hasContentType) =>
          { response with
            headers :=
              if hasContentType then response.headers
              else response.headers.insert (ascii "Content-Type")
                (ascii "text/plain; charset=utf-8")
            body := body }

end CgiHandler

end IrcPlatform.Webserv
