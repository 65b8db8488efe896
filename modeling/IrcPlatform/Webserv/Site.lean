import IrcPlatform.Library.Transition
import IrcPlatform.Webserv.Handlers

/-!
# A site

The servers of one configuration answering requests one after another from one
disk. The entries that uploads created are recorded beside it.
-/

namespace IrcPlatform.Webserv

/-- One request as the bytes that a server of the configuration has received. -/
structure Exchange where
  server : ServerConfig
  raw : Bytes
  now : Nat := 0
  writes : List WriteOutcome := []
deriving DecidableEq

inductive Answer where
  /-- More bytes are awaited, or the parser does not come back. -/
  | none
  /-- A CGI script answers. -/
  | script
  | response (response : Response)
deriving DecidableEq

/-- The request is left to a CGI script. -/
def startsCgi (request : Request) (server : ServerConfig) : Bool :=
  let route := Router.resolve request server
  route.status == .ready && CgiHandler.matchesRoute route

/-- What `readClient` answers, and the file tree after it. -/
def answer (disk : Disk) (exchange : Exchange) : Answer × FileTree :=
  let refuse (status : Nat) :=
    (Answer.response (ResponseFactory.error disk status exchange.server), disk.tree)
  match parseRequest exchange.raw exchange.server.maxBody with
  | .ok request =>
      if startsCgi request exchange.server then (.script, disk.tree)
      else
        let (response, tree) :=
          Dispatcher.dispatch disk request exchange.server exchange.now exchange.writes
        (.response response, tree)
  | .bad => refuse 400
  | .tooLarge => refuse 413
  | .versionNotSupported => refuse 505
  | .incomplete | .outOfRange | .spins => (.none, disk.tree)

structure Site where
  disk : Disk
  /-- The entries that uploads created. -/
  uploads : List Path := []

namespace Site

/-- The entries of a tree that another one does not have. -/
def newEntries (before after : FileTree) : List Path :=
  after.nodes.keys.filter fun path => (before.node path).isNone

def isCreated : Answer → Bool
  | .response response => response.status == 201
  | _ => false

def perform (site : Site) (exchange : Exchange) : Site :=
  let (given, tree) := answer site.disk exchange
  { disk := { site.disk with tree := tree }
    uploads :=
      if isCreated given then site.uploads ++ newEntries site.disk.tree tree else site.uploads }

end Site

def siteMachine (configuration : List ServerConfig) : Machine Site Exchange where
  initial site := site.uploads = []
  enabled _ exchange := configuration.contains exchange.server
  perform := Site.perform

end IrcPlatform.Webserv
