import IrcPlatform.Webserv.Config
import IrcPlatform.Webserv.Http

/-!
# Routing

`Router::resolve` and the choice of a CGI interpreter, which the server asks for
before it answers a request itself.
-/

namespace IrcPlatform.Webserv

inductive RouteStatus where
  | ready
  | methodNotAllowed
  | redirect
deriving DecidableEq

structure RouteResult where
  status : RouteStatus := .ready
  location : Option Location
  methods : List Bytes
  diskPath : Bytes := []
  redirect : Bytes := []
deriving DecidableEq

/-- `path.compare(0, prefix.size(), prefix) == 0`. -/
def beginsWith (path start : Bytes) : Bool := path.take start.length == start

/-- The prefix of a location ends at the end of a segment of the path. -/
def atBoundary (start path : Bytes) : Bool :=
  start == ascii "/" || start.getLast? == some (byte '/') || path.length == start.length ||
    path[start.length]? == some (byte '/')

def matchLocation (config : ServerConfig) (path : Bytes) : Option Location :=
  config.locations.foldl
    (fun best location =>
      if beginsWith path location.path && atBoundary location.path path &&
          best.all (fun best => best.path.length < location.path.length) then some location
      else best)
    none

/-- The root that a location, or without one the server, serves files from. -/
def selectedRoot (config : ServerConfig) : Option Location → Bytes
  | some location => location.root
  | none => config.root

def selectedMethods (config : ServerConfig) : Option Location → List Bytes
  | some location => location.methods
  | none => config.methods

def configuredRedirect : Option Location → Bytes
  | some location => location.redirect
  | none => []

namespace Router

/-- The path below the selected root. -/
def relativePath (path : Bytes) (location : Option Location) : Bytes :=
  let relative := match location with
    | some location =>
        if beginsWith path location.path then path.drop location.path.length else path
    | none => path
  if relative.head? = some (byte '/') then relative else ascii "/" ++ relative

def resolve (request : Request) (config : ServerConfig) : RouteResult :=
  let location := matchLocation config request.path
  let methods := selectedMethods config location
  let redirect := configuredRedirect location
  if !methods.contains request.method then
    { status := .methodNotAllowed, location := location, methods := methods }
  else if !redirect.isEmpty then
    { status := .redirect, location := location, methods := methods, redirect := redirect }
  else
    { location := location, methods := methods
      diskPath := selectedRoot config location ++ relativePath request.path location }

end Router

namespace CgiHandler

/-- The loop over the handlers in the order of their extensions; the longest match wins. -/
def selectInterpreter (route : RouteResult) : Bytes :=
  match route.location with
  | none => []
  | some location =>
      (location.cgiHandlers.toList.foldl
        (fun selected (extension, interpreter) =>
          if selected.1 < extension.length && extension.isSuffixOf route.diskPath then
            (extension.length, interpreter)
          else selected)
        (0, [])).2

def matchesRoute (route : RouteResult) : Bool := !(selectInterpreter route).isEmpty

end CgiHandler

end IrcPlatform.Webserv
