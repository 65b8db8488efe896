import IrcPlatform.Webserv.Response

/-!
# Handlers

`StaticHandler`, `UploadHandler`, `DeleteHandler` and the dispatcher. A handler that
changes the disk gives the file tree after it with its response.
-/

namespace IrcPlatform.Webserv

open Std

namespace StaticHandler

/-- The text from the last dot on. -/
def extension (path : Bytes) : Bytes :=
  if path.contains (byte '.') then
    byte '.' :: (path.reverse.takeWhile (· != byte '.')).reverse
  else []

def octetStream : Bytes := ascii "application/octet-stream"

def mimeTypes : List (String × String) :=
  [(".html", "text/html; charset=utf-8"), (".htm", "text/html; charset=utf-8"),
    (".css", "text/css; charset=utf-8"), (".js", "application/javascript"),
    (".json", "application/json"), (".png", "image/png"), (".jpg", "image/jpeg"),
    (".jpeg", "image/jpeg"), (".gif", "image/gif"), (".svg", "image/svg+xml"),
    (".txt", "text/plain; charset=utf-8")]

def mimeType (path : Bytes) : Bytes :=
  match mimeTypes.find? (fun entry => ascii entry.1 == lower (extension path)) with
  | some entry => ascii entry.2
  | none => octetStream

def escapeCharacter (c : UInt8) : Bytes :=
  if c = byte '&' then ascii "&amp;"
  else if c = byte '<' then ascii "&lt;"
  else if c = byte '>' then ascii "&gt;"
  else if c = byte '"' then ascii "&quot;"
  else [c]

def escapeHtml (text : Bytes) : Bytes := text.flatMap escapeCharacter

def maxListing : Nat := 1024 * 1024

/-- The loop over the entries; a listing that grows too long is given up. -/
def listEntries : List Bytes → Bytes → Option Bytes
  | [], body => some body
  | name :: names, body =>
      if name = ascii "." then listEntries names body
      else
        let body := body ++ ascii "<li><a href=\"" ++ escapeHtml name ++ ascii "\">" ++
          escapeHtml name ++ ascii "</a></li>"
        if maxListing < body.length then none else listEntries names body

def directoryListing (disk : Disk) (resolved uri : Bytes) : Option Bytes :=
  match disk.openDirectory true resolved with
  | .error _ => none
  | .ok (directory, _) =>
      (listEntries (disk.entries directory)
        (ascii "<!doctype html><html><body><h1>Index of " ++ escapeHtml uri ++
          ascii "</h1><ul>")).map (· ++ ascii "</ul></body></html>")

def selectedIndex (config : ServerConfig) : Option Location → Bytes
  | some location => location.index
  | none => config.index

def selectedAutoindex (config : ServerConfig) : Option Location → Bool
  | some location => location.autoindex
  | none => config.autoindex

/-- A directory is asked for without the slash at its end. -/
def directoryRedirect (request : Request) : Response where
  status := 301
  headers := (∅ : ExtTreeMap Bytes Bytes).insert (ascii "Location")
    (request.path ++ ascii "/" ++
      if request.query.isEmpty then [] else ascii "?" ++ request.query)

def listingResponse (disk : Disk) (request : Request) (route : RouteResult)
    (config : ServerConfig) (resolved : Bytes) : Response :=
  if !selectedAutoindex config route.location then ResponseFactory.error disk 403 config
  else
    match directoryListing disk resolved request.path with
    | none => ResponseFactory.error disk 403 config
    | some body =>
        { status := 200
          headers := (∅ : ExtTreeMap Bytes Bytes).insert (ascii "Content-Type") htmlType
          body := body }

/-- The path of the index file of a directory. -/
def indexPath (diskPath index : Bytes) : Bytes :=
  (if !index.isEmpty && diskPath.getLast? != some (byte '/') then diskPath ++ ascii "/"
    else diskPath) ++ index

/-- What is served for a directory: its index file, or a response without one. -/
def chooseIndex (disk : Disk) (request : Request) (route : RouteResult) (config : ServerConfig)
    (resolved : Bytes) : Except Response (Bytes × Bytes) :=
  if request.path.getLast? ≠ some (byte '/') then .error (directoryRedirect request)
  else
    let index := selectedIndex config route.location
    let filePath := indexPath route.diskPath index
    let found := if index.isEmpty then .error .notFound
      else FileSystem.resolveExisting disk (selectedRoot config route.location) filePath
    match found with
    | .error .forbidden => .error (ResponseFactory.error disk 403 config)
    | .error _ => .error (listingResponse disk request route config resolved)
    | .ok resolvedIndex => .ok (resolvedIndex, filePath)

/-- The regular file that is served: its canonical path, and the path that tells its type. -/
def chooseFile (disk : Disk) (request : Request) (route : RouteResult) (config : ServerConfig) :
    Except Response (Bytes × Bytes) :=
  let forbidden := ResponseFactory.error disk 403 config
  match FileSystem.resolveExisting disk (selectedRoot config route.location) route.diskPath with
  | .error .notFound => .error (ResponseFactory.error disk 404 config)
  | .error _ => .error forbidden
  | .ok resolved =>
      match disk.stat resolved with
      | .ok (.directory _) =>
          (chooseIndex disk request route config resolved).bind fun (resolvedIndex, filePath) =>
            match disk.stat resolvedIndex with
            | .ok (.file _ _) => .ok (resolvedIndex, filePath)
            | _ => .error forbidden
      | .ok (.file _ _) => .ok (resolved, route.diskPath)
      | _ => .error forbidden

/-- The location holds files that clients wrote. -/
def holdsUploads : Option Location → Bool
  | some location => !location.uploadDir.isEmpty
  | none => false

/-- Whatever is inside an upload directory is handed back as an opaque download. -/
def fileHeaders (route : RouteResult) (filePath : Bytes) : ExtTreeMap Bytes Bytes :=
  if holdsUploads route.location then
    ((∅ : ExtTreeMap Bytes Bytes).insert (ascii "Content-Type") octetStream).insert
      (ascii "Content-Disposition") (ascii "attachment")
  else (∅ : ExtTreeMap Bytes Bytes).insert (ascii "Content-Type") (mimeType filePath)

def handle (disk : Disk) (request : Request) (route : RouteResult) (config : ServerConfig) :
    Response :=
  match chooseFile disk request route config with
  | .error response => response
  | .ok (resolved, filePath) =>
      match FileSystem.readRegular disk resolved with
      | .error .tooLarge => ResponseFactory.error disk 413 config
      | .error _ => ResponseFactory.error disk 403 config
      | .ok body => { status := 200, headers := fileHeaders route filePath, body := body }

end StaticHandler

namespace UploadHandler

def nameCharacter (c : UInt8) : Bool :=
  isAsciiLetter c || isAsciiDigit c || c == byte '.' || c == byte '-' || c == byte '_'

def validFileName (name : Bytes) : Bool :=
  !name.isEmpty && name.length ≤ 128 && name.head? != some (byte '.') && name.all nameCharacter

/-- A name from this list can be created in a directory. -/
theorem validName_of_validFileName {name : Bytes} (valid : validFileName name) :
    ValidName name := by
  simp only [validFileName, Bool.and_eq_true, Bool.not_eq_true', List.isEmpty_eq_false_iff,
    bne_iff_ne, List.all_eq_true] at valid
  rcases valid with ⟨⟨⟨nonempty, _⟩, noDot⟩, characters⟩
  refine ⟨nonempty, ?_, ?_, ?_, ?_⟩
  · rintro rfl
    exact noDot rfl
  · rintro rfl
    exact noDot rfl
  · exact fun mem => absurd (characters _ mem) (by decide)
  · exact fun mem => absurd (characters _ mem) (by decide)

/-- The name that the client picks, or one made from the time. -/
def fileName (request : Request) (now : Nat) : Bytes :=
  match request.headers[ascii "x-filename"]? with
  | some name => name
  | none => ascii "upload-" ++ decimal now ++ ascii ".bin"

def createdResponse (request : Request) (name : Bytes) : Response where
  status := 201
  headers := ((∅ : ExtTreeMap Bytes Bytes).insert (ascii "Location")
    (request.path ++ ascii "/" ++ name)).insert (ascii "Content-Type")
      (ascii "text/plain; charset=utf-8")
  body := ascii "created\n"

def handle (disk : Disk) (request : Request) (route : RouteResult) (config : ServerConfig)
    (now : Nat) (writes : List WriteOutcome) : Response × FileTree :=
  let refuse (status : Nat) := ResponseFactory.error disk status config
  match route.location with
  | none => (refuse 403, disk.tree)
  | some location =>
      if location.uploadDir.isEmpty then (refuse 403, disk.tree)
      else if valid : validFileName (fileName request now) then
        match FileSystem.createExclusive disk writes location.uploadDir
            ⟨fileName request now, validName_of_validFileName valid⟩ request.body with
        | (.error .conflict, tree) => (refuse 409, tree)
        | (.error .forbidden, tree) => (refuse 403, tree)
        | (.error _, tree) => (refuse 500, tree)
        | (.ok (), tree) => (createdResponse request (fileName request now), tree)
      else (refuse 400, disk.tree)

end UploadHandler

namespace DeleteHandler

def handle (disk : Disk) (route : RouteResult) (config : ServerConfig) : Response × FileTree :=
  match FileSystem.removeRegular disk (selectedRoot config route.location) route.diskPath with
  | (.error .notFound, tree) => (ResponseFactory.error disk 404 config, tree)
  | (.error _, tree) => (ResponseFactory.error disk 403 config, tree)
  | (.ok (), tree) => ({ status := 204 }, tree)

end DeleteHandler

namespace Dispatcher

def methodNotAllowed (disk : Disk) (route : RouteResult) (config : ServerConfig) : Response :=
  let refused := ResponseFactory.error disk 405 config
  { refused with
    headers := refused.headers.insert (ascii "Allow") ((ascii ", ").intercalate route.methods) }

def redirect (route : RouteResult) : Response where
  status := match route.location with
    | some location => location.redirectStatus
    | none => 301
  headers := (∅ : ExtTreeMap Bytes Bytes).insert (ascii "Location") route.redirect

def dispatch (disk : Disk) (request : Request) (config : ServerConfig) (now : Nat)
    (writes : List WriteOutcome) : Response × FileTree :=
  let route := Router.resolve request config
  match route.status with
  | .methodNotAllowed => (methodNotAllowed disk route config, disk.tree)
  | .redirect => (redirect route, disk.tree)
  | .ready =>
      if request.method = ascii "DELETE" then DeleteHandler.handle disk route config
      else if request.method = ascii "POST" then
        UploadHandler.handle disk request route config now writes
      else (StaticHandler.handle disk request route config, disk.tree)

end Dispatcher

end IrcPlatform.Webserv
