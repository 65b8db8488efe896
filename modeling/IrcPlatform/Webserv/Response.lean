import IrcPlatform.Webserv.FileSystem

/-!
# Responses

`ResponseFactory` and the texts of the status codes.
-/

namespace IrcPlatform.Webserv

open Std

structure Response where
  status : Nat
  headers : ExtTreeMap Bytes Bytes := ∅
  body : Bytes := []
deriving DecidableEq

def reasonPhrase : Nat → Bytes
  | 200 => ascii "OK"
  | 201 => ascii "Created"
  | 204 => ascii "No Content"
  | 301 => ascii "Moved Permanently"
  | 400 => ascii "Bad Request"
  | 403 => ascii "Forbidden"
  | 404 => ascii "Not Found"
  | 405 => ascii "Method Not Allowed"
  | 409 => ascii "Conflict"
  | 408 => ascii "Request Timeout"
  | 411 => ascii "Length Required"
  | 413 => ascii "Payload Too Large"
  | 500 => ascii "Internal Server Error"
  | 503 => ascii "Service Unavailable"
  | 501 => ascii "Not Implemented"
  | 504 => ascii "Gateway Timeout"
  | 505 => ascii "HTTP Version Not Supported"
  | _ => ascii "Error"

def htmlType : Bytes := ascii "text/html; charset=utf-8"

namespace ResponseFactory

/-- Nothing is read from what is not a readable file. -/
def readErrorPage (disk : Disk) (path : Bytes) : Bytes :=
  match disk.openRead true path with
  | .ok (_, .file content _) => content
  | _ => []

def error (disk : Disk) (status : Nat) (config : ServerConfig) : Response :=
  let page := match config.errorPages[status]? with
    | some path => readErrorPage disk path
    | none => []
  { status := status
    headers := (∅ : ExtTreeMap Bytes Bytes).insert (ascii "Content-Type") htmlType
    body :=
      if page.isEmpty then ascii "<!doctype html><html><body><h1>" ++ decimal status ++ ascii " " ++
        reasonPhrase status ++ ascii "</h1></body></html>"
      else page }

end ResponseFactory

end IrcPlatform.Webserv
