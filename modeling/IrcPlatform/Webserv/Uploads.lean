import IrcPlatform.Webserv.Paths
import IrcPlatform.Webserv.Site

/-!
# Uploaded files

A file that a client wrote is handed back as an opaque download exactly where the
request is routed to a location with an upload directory, whichever root it was
found under.
-/

namespace IrcPlatform.Webserv

open Std

/-- The file whose bytes a `GET` is answered with. -/
def servedFile (disk : Disk) (exchange : Exchange) : Option Path :=
  match parseRequest exchange.raw exchange.server.maxBody with
  | .ok request =>
      let route := Router.resolve request exchange.server
      if request.method = ascii "GET" ∧ route.status = .ready ∧
          ¬ startsCgi request exchange.server then
        match StaticHandler.chooseFile disk request route exchange.server with
        | .error _ => none
        | .ok (resolved, _) => (FileSystem.openRegular disk resolved).toOption.map (·.1)
      else none
  | _ => none

/-- The response is saved by a browser, not shown. -/
def Response.IsDownload (response : Response) : Prop :=
  response.headers[ascii "Content-Type"]? = some (ascii "application/octet-stream") ∧
    response.headers[ascii "Content-Disposition"]? = some (ascii "attachment")

def Answer.IsDownload : Answer → Prop
  | .response sent => sent.IsDownload
  | _ => False

/-- The location that the path of a request matches has an upload directory. -/
def routedToUploads (exchange : Exchange) : Bool :=
  match parseRequest exchange.raw exchange.server.maxBody with
  | .ok request => StaticHandler.holdsUploads (matchLocation exchange.server request.path)
  | _ => false

/-- An uploaded file is served as a download. -/
def ServesDownloads (site : Site) (exchange : Exchange) : Prop :=
  ∀ path ∈ servedFile site.disk exchange, path ∈ site.uploads →
    (answer site.disk exchange).1.IsDownload

/-- An uploaded file is read only through a location with an upload directory. -/
def RoutesUploads (site : Site) (exchange : Exchange) : Prop :=
  ∀ path ∈ servedFile site.disk exchange, path ∈ site.uploads → routedToUploads exchange

instance (response : Response) : Decidable response.IsDownload :=
  inferInstanceAs (Decidable (_ ∧ _))

instance : ∀ given : Answer, Decidable given.IsDownload
  | .response sent => inferInstanceAs (Decidable sent.IsDownload)
  | .none | .script => inferInstanceAs (Decidable False)

instance (site : Site) (exchange : Exchange) : Decidable (ServesDownloads site exchange) :=
  inferInstanceAs (Decidable (∀ path ∈ servedFile site.disk exchange, _))

instance (site : Site) (exchange : Exchange) : Decidable (RoutesUploads site exchange) :=
  inferInstanceAs (Decidable (∀ path ∈ servedFile site.disk exchange, _))

/-! ## Files -/

theorem writeAll_content {outcomes : List WriteOutcome} {written remaining content : Bytes}
    (result : FileSystem.writeAll outcomes written remaining = some content) :
    content = written ++ remaining := by
  fun_induction FileSystem.writeAll outcomes written remaining with
  | case1 => simpa using result.symm
  | case2 => exact (Option.some.inj result).symm
  | case3 written remaining count outcomes _ ih =>
      rw [ih result, List.append_assoc, List.take_append_drop]
  | case4 written remaining outcomes _ ih => exact ih result
  | case5 => simp at result

theorem openRegular_node {disk : Disk} {path : Bytes} {found : Path} {content : Bytes}
    (result : FileSystem.openRegular disk path = .ok (found, content)) :
    ∃ readable, disk.tree.node found = some (.file content readable) := by
  unfold FileSystem.openRegular at result
  split at result
  · simp at result
  next readable opened =>
    split at result
    · simp at result
    · rcases Prod.mk.inj (Except.ok.inj result) with ⟨rfl, rfl⟩
      exact ⟨readable, Disk.openRead_node opened⟩
  · simp at result

/-- The directory that is opened is the one that was asked for. -/
theorem resolve_of_canonicalPath {disk : Disk} {directory canonical : Bytes} {opened : Path}
    {access : Access} (found : FileSystem.canonicalPath disk directory = .ok canonical)
    (result : disk.openDirectory false canonical = .ok (opened, access)) :
    disk.tree.resolve disk.directory true directory = .ok opened := by
  rcases Disk.realpath_ok (FileSystem.realpath_of_canonicalPath found) with ⟨path, resolved, rfl⟩
  rcases FileTree.resolve_present resolved with ⟨node, present, noLink⟩
  rw [FileTree.resolve_render present noLink (Disk.openDirectory_ok result).1, resolved]

/-- A successful upload adds one file with exactly the bytes of the body. -/
theorem createExclusive_ok {disk : Disk} {writes : List WriteOutcome} {directory body : Bytes}
    {name : EntryName} {tree : FileTree}
    (created : FileSystem.createExclusive disk writes directory name body = (.ok (), tree)) :
    ∃ parent, disk.tree.resolve disk.directory true directory = .ok parent ∧
      disk.tree.node (parent ++ [name.text]) = none ∧
      ∀ path, tree.node path =
        if path = parent ++ [name.text] then some (.file body true) else disk.tree.node path := by
  unfold FileSystem.createExclusive at created
  split at created
  · simp at created
  next canonical found =>
    split at created
    · simp at created
    next parent access opened =>
      split at created
      · simp at created
      next fresh new =>
        split at created
        next content written =>
          rcases Disk.createNew_ok new with ⟨absent, rfl⟩
          rcases (Prod.mk.inj created).2 with rfl
          rcases writeAll_content written with rfl
          have inside : disk.tree.isDirectory parent :=
            disk.tree.isDirectory_iff.mpr ⟨access, (Disk.openDirectory_ok opened).2⟩
          exact ⟨parent, resolve_of_canonicalPath found opened, absent,
            disk.tree.node_put_put name.valid inside absent⟩
        · simp at created

theorem Site.mem_newEntries {before after : FileTree} {path : Path} :
    path ∈ Site.newEntries before after ↔ (after.node path).isSome ∧ before.node path = none := by
  rw [Site.newEntries, List.mem_filter, ExtTreeMap.mem_keys, Option.isNone_iff_eq_none,
    ← ExtTreeMap.isSome_getElem?_iff_mem]
  rfl

/-- An upload answered with 201 has stored its file, and tells the path it was asked at. -/
theorem UploadHandler.handle_stored {disk : Disk} {request : Request} {route : RouteResult}
    {config : ServerConfig} {now : Nat} {writes : List WriteOutcome}
    (created : (UploadHandler.handle disk request route config now writes).1.status = 201) :
    ∃ location tree, route.location = some location ∧
      ∃ valid : validFileName (fileName request now),
        FileSystem.createExclusive disk writes location.uploadDir
          ⟨fileName request now, validName_of_validFileName valid⟩ request.body = (.ok (), tree) ∧
        UploadHandler.handle disk request route config now writes =
          (createdResponse request (fileName request now), tree) := by
  unfold UploadHandler.handle at created ⊢
  dsimp only at created ⊢
  split at created
  · simp [ResponseFactory.error] at created
  next location known =>
    split at created
    · simp [ResponseFactory.error] at created
    next configured =>
      split at created
      next valid =>
        split at created
        · simp [ResponseFactory.error] at created
        · simp [ResponseFactory.error] at created
        · simp [ResponseFactory.error] at created
        next tree stored =>
          refine ⟨location, tree, known, valid, stored, ?_⟩
          rw [if_neg configured, dif_pos valid, stored]
      · simp [ResponseFactory.error] at created

/-- An upload answered with 201 creates one entry, and that is the file it was asked for. -/
theorem UploadHandler.handle_created {disk : Disk} {request : Request} {route : RouteResult}
    {config : ServerConfig} {now : Nat} {writes : List WriteOutcome}
    (created : (UploadHandler.handle disk request route config now writes).1.status = 201) :
    ∃ path, (UploadHandler.handle disk request route config now writes).2.node path =
        some (.file request.body true) ∧
      ∀ other, other ∈ Site.newEntries disk.tree
        (UploadHandler.handle disk request route config now writes).2 ↔ other = path := by
  rcases UploadHandler.handle_stored created with ⟨location, tree, _, valid, stored, whole⟩
  rcases createExclusive_ok stored with ⟨parent, _, absent, nodes⟩
  rw [whole]
  refine ⟨parent ++ [UploadHandler.fileName request now], by simp [nodes], fun other => ?_⟩
  rw [Site.mem_newEntries]
  constructor
  · rintro ⟨present, missing⟩
    by_contra differs
    simp [nodes, differs, missing] at present
  · rintro rfl
    exact ⟨by simp [nodes], absent⟩

/-- The answer with the contents of a file. -/
def fileResponse (route : RouteResult) (filePath content : Bytes) : Response where
  status := 200
  headers := StaticHandler.fileHeaders route filePath
  body := content

/-- A file that is served answers with its bytes, and its type is decided by the location. -/
theorem answer_of_servedFile {disk : Disk} {exchange : Exchange} {path : Path}
    (served : servedFile disk exchange = some path) :
    ∃ request filePath content readable,
      parseRequest exchange.raw exchange.server.maxBody = .ok request ∧
      disk.tree.node path = some (.file content readable) ∧
      (answer disk exchange).1 =
        .response (fileResponse (Router.resolve request exchange.server) filePath content) := by
  unfold servedFile at served
  split at served
  next request parsed =>
    simp only at served
    split at served
    next asked =>
      rcases asked with ⟨isGet, ready, noScript⟩
      split at served
      · simp at served
      next resolved filePath chosen =>
        cases opened : FileSystem.openRegular disk resolved with
        | error failure => simp [opened, Except.toOption] at served
        | ok entry =>
            rcases entry with ⟨found, content⟩
            simp only [opened, Except.toOption, Option.map_some, Option.some.injEq] at served
            rcases openRegular_node opened with ⟨readable, file⟩
            refine ⟨request, filePath, content, readable, parsed, served ▸ file, ?_⟩
            simp only [answer, parsed, if_neg noScript, Dispatcher.dispatch, ready]
            rw [if_neg (by rw [isGet]; decide), if_neg (by rw [isGet]; decide)]
            simp [StaticHandler.handle, chosen, FileSystem.readRegular, opened, Except.map,
              fileResponse]
    · simp at served
  · simp at served

theorem isDownload_fileResponse {route : RouteResult} {filePath content : Bytes} :
    (fileResponse route filePath content).IsDownload ↔
      StaticHandler.holdsUploads route.location := by
  have other : compare (ascii "Content-Disposition") (ascii "Content-Type") ≠ .eq := by decide
  have differ : compare (ascii "Content-Type") (ascii "Content-Disposition") ≠ .eq := by decide
  unfold Response.IsDownload fileResponse StaticHandler.fileHeaders
  split
  next holds =>
    simp only [holds, iff_true]
    constructor
    · rw [ExtTreeMap.getElem?_insert, if_neg other, ExtTreeMap.getElem?_insert_self]
      rfl
    · exact ExtTreeMap.getElem?_insert_self
  next plain =>
    refine iff_of_false (fun both => ?_) plain
    have disposition := both.2
    rw [ExtTreeMap.getElem?_insert, if_neg differ] at disposition
    simp at disposition

/-- A step serves uploads as downloads exactly if it reads them through upload locations. -/
theorem servesDownloads_iff (site : Site) (exchange : Exchange) :
    ServesDownloads site exchange ↔ RoutesUploads site exchange := by
  refine forall_congr' fun path => forall_congr' fun served => forall_congr' fun _ => ?_
  obtain ⟨request, filePath, content, _, parsed, _, answered⟩ :=
    answer_of_servedFile (Option.mem_def.mp served)
  rw [answered, Answer.IsDownload, isDownload_fileResponse, routedToUploads, parsed,
    Router.resolve_location]

/-- In a run, uploaded files are served as downloads exactly if each request that reads one
is routed to a location with an upload directory. -/
theorem run_servesDownloads_iff (configuration : List ServerConfig) (site : Site)
    (exchanges : List Exchange) :
    (siteMachine configuration).EveryStep ServesDownloads exchanges site ↔
      (siteMachine configuration).EveryStep RoutesUploads exchanges site :=
  Machine.everyStep_congr servesDownloads_iff exchanges site

/-- The upload directory under the root of the server. -/
def defaultSite : Site where
  disk :=
    { tree := ((FileTree.empty {}).put [] (ascii "www") (.directory {})).put [ascii "www"]
        (ascii "uploads") (.directory {})
      directory := [] }

end IrcPlatform.Webserv
