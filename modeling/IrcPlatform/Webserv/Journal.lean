import IrcPlatform.Library.TreeShapes
import IrcPlatform.Webserv.Containment
import IrcPlatform.Webserv.Creation

/-!
# What requests leave behind

In every run of a site, what a request does to the disk is what its response says: an upload
that is answered with 201 adds one file, a removal that is answered with 204 takes one away, and
nothing else changes anything. What a path holds is what the last such request made of it.
-/

namespace IrcPlatform.Webserv

open Std

/-! ## What a response says -/

/-- The exchange stores a new file in the upload directory of its location, and says so. -/
inductive Stored (disk : Disk) (exchange : Exchange) : Path → Bytes → Prop where
  | upload {request : Request} {location : Location} {parent : Path}
      (accepted : parseRequest exchange.raw exchange.server.maxBody = .ok request)
      (method : request.method = ascii "POST")
      (ready : (Router.resolve request exchange.server).status = .ready)
      (routed : (Router.resolve request exchange.server).location = some location)
      (valid : UploadHandler.validFileName (UploadHandler.fileName request exchange.now) = true)
      (opened : disk.tree.resolve disk.directory true location.uploadDir = .ok parent)
      (directory : disk.tree.isDirectory parent = true)
      (absent : disk.tree.node (parent ++ [UploadHandler.fileName request exchange.now]) = none)
      (told : (answer disk exchange).1 = .response
        (UploadHandler.createdResponse request (UploadHandler.fileName request exchange.now))) :
      Stored disk exchange (parent ++ [UploadHandler.fileName request exchange.now]) request.body

/-- The exchange removes the file that its path leads to, at or below the root of its location,
and says so. -/
inductive Removed (disk : Disk) (exchange : Exchange) : Path → Prop where
  | delete {request : Request} {root path : Path} {content : Bytes} {readable : Bool}
      (accepted : parseRequest exchange.raw exchange.server.maxBody = .ok request)
      (method : request.method = ascii "DELETE")
      (ready : (Router.resolve request exchange.server).status = .ready)
      (rooted : disk.tree.resolve disk.directory true
        (selectedRoot exchange.server (Router.resolve request exchange.server).location) = .ok root)
      (named : disk.tree.resolve disk.directory true
        (Router.resolve request exchange.server).diskPath = .ok path)
      (inside : root <+: path) (file : disk.tree.node path = some (.file content readable))
      (told : (answer disk exchange).1 = .response { status := 204 }) :
      Removed disk exchange path

/-- The exchange makes an entry what it is behind it. -/
inductive Makes (site : Site) (exchange : Exchange) (path : Path) : Option Node → Prop where
  | stored {content : Bytes} (stored : Stored site.disk exchange path content) :
      Makes site exchange path (some (.file content true))
  | removed (removed : Removed site.disk exchange path) : Makes site exchange path none

/-- The exchange makes the entry what it then is. -/
def Touches (path : Path) (site : Site) (exchange : Exchange) : Prop :=
  Makes site exchange path ((site.perform exchange).disk.tree.node path)

/-- The response reports that a file was created or removed. -/
def Acknowledges (site : Site) (exchange : Exchange) : Prop :=
  ∃ request response, parseRequest exchange.raw exchange.server.maxBody = .ok request ∧
    startsCgi request exchange.server = false ∧
    (Router.resolve request exchange.server).status = .ready ∧
    (answer site.disk exchange).1 = .response response ∧
    (request.method = ascii "POST" ∧ response.status = 201 ∨
      request.method = ascii "DELETE" ∧ response.status = 204)

/-- The tree behind an exchange. -/
inductive Effect (site : Site) (exchange : Exchange) (tree : FileTree) : Prop where
  | kept (same : tree = site.disk.tree) (silent : ¬Acknowledges site exchange)
  | stored {path : Path} {content : Bytes} (stored : Stored site.disk exchange path content)
      (nodes : ∀ other, tree.node other =
        if other = path then some (.file content true) else site.disk.tree.node other)
  | removed {path : Path} (removed : Removed site.disk exchange path)
      (nodes : ∀ other, tree.node other =
        if other = path then none else site.disk.tree.node other)

/-! ## Removals -/

namespace FileSystem

variable {disk : Disk} {root path : Bytes} {tree : FileTree}

theorem unlink_ok (removed : disk.unlink path = .ok tree) :
    ∃ found node, disk.inspect false path = .ok (found, node) ∧ tree = disk.tree.erase found := by
  unfold Disk.unlink at removed
  cases inspected : disk.inspect false path with
  | error errno => simp [inspected, Except.bind] at removed
  | ok entry =>
      rw [inspected] at removed
      simp only [Except.bind] at removed
      split at removed
      · cases removed
      · split at removed
        · exact ⟨entry.1, entry.2, rfl, (Except.ok.inj removed).symm⟩
        · cases removed
      · cases removed

/-- A removal takes the one file away that the path leads to. -/
theorem removeRegular_ok (removed : removeRegular disk root path = (.ok (), tree)) :
    ∃ above found content readable, disk.tree.resolve disk.directory true root = .ok above ∧
      disk.tree.resolve disk.directory true path = .ok found ∧ above <+: found ∧
      disk.tree.node found = some (.file content readable) ∧
      ∀ other, tree.node other = if other = found then none else disk.tree.node other := by
  unfold removeRegular at removed
  split at removed
  · cases (Prod.mk.inj removed).1
  next canonical resolved =>
    split at removed
    next opened content readable file =>
      split at removed
      next after unlinked =>
        rcases (Prod.mk.inj removed).2 with rfl
        rcases leadsInside_of_resolveExisting resolved with
          ⟨real, canonicalRoot, realRoot, inside⟩
        rcases resolveExisting_ok resolved with ⟨_, node, _, asked, noLink, _, _⟩
        rcases Disk.realpath_ok real with ⟨found, named, rfl⟩
        rcases Disk.realpath_ok realRoot with ⟨above, rooted, rfl⟩
        have segment {entry : Path} {text : Bytes}
            (led : disk.tree.resolve disk.directory true text = .ok entry) :
            pathSegments (FileTree.render entry) = entry :=
          FileTree.pathSegments_render fun name listed =>
            ⟨(FileTree.validName_of_resolve led name listed).1,
              (FileTree.validName_of_resolve led name listed).2.2.2.1⟩
        rw [segment named, segment rooted] at inside
        rcases FileTree.resolve_present named with ⟨entry, present, plain⟩
        rcases Disk.openRead_ok file with ⟨again, isFile⟩
        rw [FileTree.resolve_render present plain again] at isFile
        rcases unlink_ok unlinked with ⟨gone, last, inspected, rfl⟩
        rcases Disk.inspect_ok inspected with ⟨stopped, here⟩
        have lastPlain (target : Bytes) : disk.tree.node gone ≠ some (.link target) := by
          intro link
          rw [Disk.lstat, inspected] at asked
          rw [here] at link
          exact noLink target ((Except.ok.inj asked).symm.trans (Option.some.inj link))
        have same : gone = found := by
          have followed : disk.tree.resolve disk.directory true path = .ok gone :=
            FileTree.resolve_followed lastPlain stopped
          rw [named] at followed
          exact (Except.ok.inj followed).symm
        refine ⟨above, found, content, readable, rooted, named, inside, isFile, fun other => ?_⟩
        rw [same, FileTree.node_erase]
        rw [FileTree.isDirectory, isFile]
        exact Bool.false_ne_true
      · cases (Prod.mk.inj removed).1
    · cases (Prod.mk.inj removed).1

theorem removeRegular_refused {result : FileResult Unit}
    (removed : removeRegular disk root path = (result, tree)) (refused : result ≠ .ok ()) :
    tree = disk.tree := by
  unfold removeRegular at removed
  split at removed
  · exact (Prod.mk.inj removed).2.symm
  · split at removed
    · split at removed
      · exact absurd (Prod.mk.inj removed).1.symm refused
      · exact (Prod.mk.inj removed).2.symm
    · exact (Prod.mk.inj removed).2.symm

end FileSystem

/-! ## Handlers -/

theorem UploadHandler.handle_refused {disk : Disk} {request : Request} {route : RouteResult}
    {config : ServerConfig} {now : Nat} {writes : List WriteOutcome}
    (refused : (UploadHandler.handle disk request route config now writes).1.status ≠ 201) :
    (UploadHandler.handle disk request route config now writes).2 = disk.tree := by
  unfold UploadHandler.handle at refused ⊢
  dsimp only at refused ⊢
  split
  · rfl
  next location known =>
    split
    · rfl
    · split
      next valid =>
        split
        next tree created => exact FileSystem.createExclusive_refused created (by simp)
        next tree created => exact FileSystem.createExclusive_refused created (by simp)
        next tree created => exact FileSystem.createExclusive_refused created (by simp)
        next tree created =>
          exfalso
          apply refused
          simp_all [UploadHandler.createdResponse]
      · rfl

theorem DeleteHandler.handle_cases (disk : Disk) (route : RouteResult) (config : ServerConfig) :
    (DeleteHandler.handle disk route config).1.status ≠ 204 ∧
        (DeleteHandler.handle disk route config).2 = disk.tree ∨
      ∃ tree, FileSystem.removeRegular disk (selectedRoot config route.location) route.diskPath =
          (.ok (), tree) ∧
        DeleteHandler.handle disk route config = ({ status := 204 }, tree) := by
  unfold DeleteHandler.handle
  split
  next tree removed =>
    exact .inl ⟨by simp [ResponseFactory.error], FileSystem.removeRegular_refused removed (by simp)⟩
  next failure tree _ removed =>
    exact .inl ⟨by simp [ResponseFactory.error], FileSystem.removeRegular_refused removed (by simp)⟩
  next tree removed => exact .inr ⟨tree, removed, rfl⟩

/-- Every exchange has the effect that its response reports. -/
theorem answer_effect (site : Site) (exchange : Exchange) :
    Effect site exchange (answer site.disk exchange).2 := by
  cases parsed : parseRequest exchange.raw exchange.server.maxBody with
  | ok request =>
      have only {other : Request}
          (again : parseRequest exchange.raw exchange.server.maxBody = .ok other) :
          other = request := ParseResult.ok.inj (again.symm.trans parsed)
      cases script : startsCgi request exchange.server with
      | true =>
          refine .kept (by simp [answer, parsed, script]) ?_
          rintro ⟨other, response, again, noScript, _⟩
          rw [only again, script] at noScript
          cases noScript
      | false =>
          have whole : answer site.disk exchange =
              (.response (Dispatcher.dispatch site.disk request exchange.server exchange.now
                exchange.writes).1, (Dispatcher.dispatch site.disk request exchange.server
                  exchange.now exchange.writes).2) := by
            simp [answer, parsed, script]
          -- A route that is not ready changes nothing and creates nothing.
          have unready (notReady : (Router.resolve request exchange.server).status ≠ .ready) :
              ¬Acknowledges site exchange := by
            rintro ⟨other, response, again, _, ready, _⟩
            rw [only again] at ready
            exact notReady ready
          cases status : (Router.resolve request exchange.server).status with
          | methodNotAllowed =>
              refine .kept ?_ (unready (by simp [status]))
              rw [whole]
              simp only [Dispatcher.dispatch, status]
          | redirect =>
              refine .kept ?_ (unready (by simp [status]))
              rw [whole]
              simp only [Dispatcher.dispatch, status]
          | ready =>
              simp only [Dispatcher.dispatch, status] at whole
              split at whole
              next isDelete =>
                rcases DeleteHandler.handle_cases site.disk
                    (Router.resolve request exchange.server) exchange.server with
                  ⟨refused, same⟩ | ⟨tree, removed, done⟩
                · refine .kept (by rw [whole, same]) ?_
                  rintro ⟨other, response, again, _, _, told, said⟩
                  rw [only again, isDelete] at said
                  rw [whole, Answer.response.injEq] at told
                  rcases said with ⟨isPost, _⟩ | ⟨_, created⟩
                  · exact absurd isPost (by decide)
                  · exact refused (told ▸ created)
                · rcases FileSystem.removeRegular_ok removed with
                    ⟨root, path, content, readable, rooted, named, inside, file, nodes⟩
                  rw [done] at whole
                  rw [whole]
                  refine .removed (.delete parsed isDelete status rooted named inside file ?_) nodes
                  rw [whole]
              next notDelete =>
                split at whole
                next isPost =>
                  by_cases created : (UploadHandler.handle site.disk request
                      (Router.resolve request exchange.server) exchange.server exchange.now
                        exchange.writes).1.status = 201
                  · rcases UploadHandler.handle_stored created with
                      ⟨location, tree, routed, valid, stored, done⟩
                    rcases createExclusive_ok stored with ⟨parent, opened, absent, nodes⟩
                    rw [done] at whole
                    rw [whole]
                    refine .stored (.upload parsed isPost status routed valid opened ?_ absent ?_)
                      nodes
                    · have present :=
                        nodes (parent ++ [UploadHandler.fileName request exchange.now])
                      rw [if_pos rfl] at present
                      rcases tree.directory_dropLast present with ⟨access, above⟩
                      rw [List.dropLast_concat, nodes, if_neg (by simp)] at above
                      exact site.disk.tree.isDirectory_iff.mpr ⟨access, above⟩
                    · rw [whole]
                  · refine .kept (by rw [whole, UploadHandler.handle_refused created]) ?_
                    rintro ⟨other, response, again, _, _, told, said⟩
                    rw [only again, isPost] at said
                    rw [whole, Answer.response.injEq] at told
                    rcases said with ⟨_, wasCreated⟩ | ⟨isDelete, _⟩
                    · exact created (told ▸ wasCreated)
                    · exact absurd isDelete (by decide)
                next notPost =>
                  refine .kept (by rw [whole]) ?_
                  rintro ⟨other, response, again, _, _, _, said⟩
                  rw [only again] at said
                  rcases said with ⟨isPost, _⟩ | ⟨isDelete, _⟩
                  · exact notPost isPost
                  · exact notDelete isDelete
  | bad | tooLarge | versionNotSupported | incomplete | outOfRange | spins =>
      refine .kept (by simp [answer, parsed]) ?_
      rintro ⟨other, response, again, _⟩
      rw [parsed] at again
      cases again

/-! ## Runs -/

namespace Effect

variable {site : Site} {exchange : Exchange} {path : Path}
  (effect : Effect site exchange (site.perform exchange).disk.tree)
include effect

theorem sameShape : site.disk.tree.SameShape (site.perform exchange).disk.tree := by
  cases effect with
  | kept same _ => exact same ▸ .refl _
  | stored stored nodes =>
      refine .of_node nodes ?_ ?_
      · cases stored with
        | upload _ _ _ _ _ _ _ absent _ =>
            intro former there
            rw [absent] at there
            cases there
      · intro later there
        rw [← Option.some.inj there]
        rfl
  | removed removed nodes =>
      refine .of_node nodes ?_ (fun later there => by cases there)
      cases removed with
      | delete _ _ _ _ _ _ file _ =>
          intro former there
          rw [file] at there
          rw [← Option.some.inj there]
          rfl

theorem untouched (untouched : ¬Touches path site exchange) :
    (site.perform exchange).disk.tree.node path = site.disk.tree.node path := by
  cases effect with
  | kept same _ => rw [same]
  | @stored place content stored nodes =>
      rw [nodes, if_neg]
      rintro rfl
      apply untouched
      rw [Touches, nodes, if_pos rfl]
      exact .stored stored
  | @removed place removed nodes =>
      rw [nodes, if_neg]
      rintro rfl
      apply untouched
      rw [Touches, nodes, if_pos rfl]
      exact .removed removed

theorem acknowledged (acknowledges : Acknowledges site exchange) :
    ∃ path, Touches path site exchange := by
  cases effect with
  | kept _ silent => exact absurd acknowledges silent
  | @stored place content stored nodes =>
      refine ⟨place, ?_⟩
      rw [Touches, nodes, if_pos rfl]
      exact .stored stored
  | @removed place removed nodes =>
      refine ⟨place, ?_⟩
      rw [Touches, nodes, if_pos rfl]
      exact .removed removed

end Effect

namespace Site

variable {configuration : List ServerConfig} {site final : Site} {exchanges : List Exchange}

theorem sameShape_performAll
    (performed : (siteMachine configuration).performAll exchanges site = some final) :
    final.disk.directory = site.disk.directory ∧ site.disk.tree.SameShape final.disk.tree := by
  induction exchanges generalizing site with
  | nil =>
      rw [Machine.performAll, Option.some.injEq] at performed
      exact performed ▸ ⟨rfl, .refl _⟩
  | cons exchange exchanges ih =>
      rw [Machine.performAll] at performed
      split at performed
      · have later := ih performed
        exact ⟨later.1, (answer_effect site exchange).sameShape.trans later.2⟩
      · cases performed

/-- What a run leaves behind is what its responses report. -/
structure Journal (configuration : List ServerConfig) (site : Site) (exchanges : List Exchange)
    (final : Site) : Prop where
  /-- Directories, links and special files stay. -/
  shape : site.disk.tree.SameShape final.disk.tree
  /-- A path to a directory leads there at all times. -/
  directories (text : Bytes) (found : Path) : site.disk.tree.isDirectory found = true →
    (final.disk.tree.resolve final.disk.directory true text = .ok found ↔
      site.disk.tree.resolve site.disk.directory true text = .ok found)
  /-- The last exchange that touched an entry, if there is one, made it what it is. -/
  entries (path : Path) :
    (siteMachine configuration).EveryStep (fun site exchange => ¬Touches path site exchange)
        exchanges site ∧ final.disk.tree.node path = site.disk.tree.node path ∨
      ∃ early exchange late before,
        (siteMachine configuration).Turn exchanges site early exchange late before ∧
        (siteMachine configuration).EveryStep (fun site exchange => ¬Touches path site exchange)
          late (before.perform exchange) ∧
        Makes before exchange path (final.disk.tree.node path)
  /-- What is reported has been done. -/
  reports (early : List Exchange) (exchange : Exchange) (late : List Exchange) (before : Site) :
    (siteMachine configuration).Turn exchanges site early exchange late before →
      Acknowledges before exchange → ∃ path, Touches path before exchange

end Site

/-- A server that takes notes and gives them away again. -/
def noteServer : ServerConfig where
  locations :=
    [{ path := ascii "/", root := ascii "/www/uploads", uploadDir := ascii "/www/uploads"
       methods := [ascii "POST", ascii "DELETE"] }]

def storeNote : Exchange where
  server := noteServer
  raw := ascii "POST / HTTP/1.1\r\nHost: a\r\nX-Filename: n\r\nContent-Length: 2\r\n\r\nhi"

def removeNote : Exchange where
  server := noteServer
  raw := ascii "DELETE /n HTTP/1.1\r\nHost: a\r\n\r\n"

end IrcPlatform.Webserv
