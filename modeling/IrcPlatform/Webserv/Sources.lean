import IrcPlatform.Webserv.Uploads

/-!
# Sources of scripts

A script is chosen by the routed path alone; a file that is sent may be the index of a
directory, and is read at its canonical path. The source of a script is kept back exactly
if no index file has the ending of a script, no such ending is mapped to an empty
interpreter, and the odd endings and paths are kept apart as well.
-/

namespace IrcPlatform.Webserv

open Std

/-- A regular file that a request is answered with. -/
structure SentFile where
  route : RouteResult
  /-- The path by which the file is asked for. -/
  asked : Bytes
  canonical : Bytes
  content : Bytes
deriving DecidableEq

/-- The file that the static handler reads for a request. -/
def sentFile (disk : Disk) (exchange : Exchange) : Option SentFile :=
  match parseRequest exchange.raw exchange.server.maxBody with
  | .ok request =>
      let route := Router.resolve request exchange.server
      if startsCgi request exchange.server ∨ route.status ≠ .ready ∨
          request.method = ascii "DELETE" ∨ request.method = ascii "POST" then none
      else
        match StaticHandler.chooseFile disk request route exchange.server with
        | .error _ => none
        | .ok (canonical, asked) =>
            (FileSystem.readRegular disk canonical).toOption.map fun content =>
              { route := route, asked := asked, canonical := canonical, content := content }
  | _ => none

/-- The path of the file does not end like a script of the location. -/
def SentFile.KeepsSources (sent : SentFile) : Prop :=
  ∀ location, sent.route.location = some location → ∀ extension ∈ location.cgiHandlers,
    ¬ extension <:+ sent.asked ∧ ¬ extension <:+ sent.canonical

/-- The routed path names a directory. -/
def namesDirectory (disk : Disk) (server : ServerConfig) (route : RouteResult) : Bool :=
  match FileSystem.resolveExisting disk (selectedRoot server route.location) route.diskPath with
  | .ok resolved => (disk.stat resolved).toOption.any Node.isDirectory
  | .error _ => false

/-- The path that is asked for: that of the index file, where a directory is named. -/
def askedPath (disk : Disk) (server : ServerConfig) (route : RouteResult) : Bytes :=
  if namesDirectory disk server route then
    StaticHandler.indexPath route.diskPath (StaticHandler.selectedIndex server route.location)
  else route.diskPath

/-- No file that ends like a script of the location is asked for. -/
structure SourcesApart (disk : Disk) (server : ServerConfig) (route : RouteResult)
    (location : Location) : Prop where
  /-- A script that is named is left to an interpreter. -/
  named : namesDirectory disk server route = false → ∀ extension ∈ location.cgiHandlers,
    extension <:+ route.diskPath → CgiHandler.selectInterpreter route ≠ []
  index : namesDirectory disk server route = true → ∀ extension ∈ location.cgiHandlers,
    ¬ extension <:+
      StaticHandler.indexPath route.diskPath (StaticHandler.selectedIndex server route.location)
  /-- A path that the C library cuts off at a zero byte does not end like a script there. -/
  cut : 0 ∈ askedPath disk server route → ∀ extension ∈ location.cgiHandlers,
    byte '/' ∉ extension → ¬ extension <:+ (askedPath disk server route).takeWhile (· != 0)
  /-- An extension that spans directories does not end the place that is asked for. -/
  nested : ∀ extension ∈ location.cgiHandlers, byte '/' ∈ extension → ∀ found,
    disk.tree.resolve disk.directory true (askedPath disk server route) = .ok found →
      ¬ extension <:+ FileTree.render found

/-! ## What is read -/

theorem resolveExisting_ok {disk : Disk} {root path resolved : Bytes}
    (result : FileSystem.resolveExisting disk root path = .ok resolved) :
    disk.realpath path = .ok resolved ∧
      ∃ node, disk.lstat path = .ok node ∧ ∀ target, node ≠ .link target := by
  unfold FileSystem.resolveExisting at result
  split at result
  · cases result
  split at result
  · cases result
  · cases result
  next node noLink inspected =>
    unfold FileSystem.canonicalPath at result
    cases real : disk.realpath path with
    | error errno => simp [real, Except.mapError, Except.bind] at result
    | ok canonical =>
        rw [real] at result
        simp only [Except.mapError, Except.bind] at result
        split at result
        · rcases Except.ok.inj result with rfl
          exact ⟨rfl, node, inspected, noLink⟩
        · cases result

theorem readRegular_ok {disk : Disk} {path content : Bytes}
    (result : FileSystem.readRegular disk path = .ok content) :
    ∃ found readable, disk.openRead false path = .ok (found, .file content readable) := by
  unfold FileSystem.readRegular FileSystem.openRegular at result
  split at result
  · cases result
  next opened =>
    split at result
    · cases result
    · rcases Except.ok.inj result with rfl
      exact ⟨_, _, opened⟩
  · cases result

theorem chooseIndex_ok {disk : Disk} {request : Request} {route : RouteResult}
    {server : ServerConfig} {resolved canonical asked : Bytes}
    (result : StaticHandler.chooseIndex disk request route server resolved =
      .ok (canonical, asked)) :
    asked = StaticHandler.indexPath route.diskPath
        (StaticHandler.selectedIndex server route.location) ∧
      FileSystem.resolveExisting disk (selectedRoot server route.location) asked =
        .ok canonical := by
  unfold StaticHandler.chooseIndex at result
  split at result
  · cases result
  simp only at result
  split at result
  · cases result
  · cases result
  next found =>
    rcases Prod.mk.inj (Except.ok.inj result) with ⟨rfl, rfl⟩
    refine ⟨rfl, ?_⟩
    split at found
    · cases found
    · exact found

/-- The file that is chosen is the one at the asked path. -/
theorem chooseFile_ok {disk : Disk} {request : Request} {route : RouteResult}
    {server : ServerConfig} {canonical asked : Bytes}
    (result : StaticHandler.chooseFile disk request route server = .ok (canonical, asked)) :
    asked = askedPath disk server route ∧
      FileSystem.resolveExisting disk (selectedRoot server route.location) asked =
        .ok canonical := by
  unfold StaticHandler.chooseFile at result
  simp only at result
  split at result
  · cases result
  · cases result
  next resolved found =>
    split at result
    next access directory =>
      have isDirectory : namesDirectory disk server route = true := by
        rw [namesDirectory, found]
        simp only [directory, Except.toOption, Option.any_some, Node.isDirectory]
      rw [askedPath, if_pos isDirectory]
      cases chosen : StaticHandler.chooseIndex disk request route server resolved with
      | error response => simp [chosen, Except.bind] at result
      | ok index =>
          rw [chosen] at result
          simp only [Except.bind] at result
          split at result
          · have same : index = (canonical, asked) := Except.ok.inj result
            exact chooseIndex_ok (same ▸ chosen)
          · cases result
    next content readable file =>
      rcases Prod.mk.inj (Except.ok.inj result) with ⟨rfl, rfl⟩
      have noDirectory : ¬ namesDirectory disk server route = true := by
        rw [namesDirectory, found]
        simp [file, Except.toOption, Node.isDirectory]
      exact ⟨by rw [askedPath, if_neg noDirectory], found⟩
    · cases result

/-! ## What is sent -/

/-- A file that is sent is the body of a 200, and was asked for by its path. -/
theorem sentFile_spec {disk : Disk} {exchange : Exchange} {sent : SentFile}
    (isSent : sentFile disk exchange = some sent) :
    (answer disk exchange).1 = .response (fileResponse sent.route sent.asked sent.content) ∧
      CgiHandler.selectInterpreter sent.route = [] ∧
      sent.asked = askedPath disk exchange.server sent.route ∧
      FileSystem.resolveExisting disk (selectedRoot exchange.server sent.route.location)
        sent.asked = .ok sent.canonical ∧
      FileSystem.readRegular disk sent.canonical = .ok sent.content := by
  unfold sentFile at isSent
  split at isSent
  next request parsed =>
    simp only at isSent
    split at isSent
    · cases isSent
    next plain =>
      rw [not_or, not_or, not_or, not_not] at plain
      rcases plain with ⟨noScript, ready, notDelete, notPost⟩
      split at isSent
      · cases isSent
      next canonical asked chosen =>
        cases content : FileSystem.readRegular disk canonical with
        | error failure => simp [content, Except.toOption] at isSent
        | ok bytes =>
            rw [content] at isSent
            simp only [Except.toOption, Option.map_some, Option.some.injEq] at isSent
            rcases isSent with rfl
            refine ⟨?_, ?_, (chooseFile_ok chosen).1, (chooseFile_ok chosen).2, content⟩
            · simp only [answer, parsed, if_neg noScript, Dispatcher.dispatch, ready,
                if_neg notDelete, if_neg notPost, StaticHandler.handle, chosen, content,
                fileResponse]
            · simpa [startsCgi, ready, CgiHandler.matchesRoute] using noScript
  · cases isSent

/-- A file is sent without the source of a script exactly if the sources are kept apart. -/
theorem keepsSources_iff {disk : Disk} {exchange : Exchange} {sent : SentFile}
    (isSent : sentFile disk exchange = some sent) :
    (answer disk exchange).1 = .response (fileResponse sent.route sent.asked sent.content) ∧
      (sent.KeepsSources ↔ ∀ location, sent.route.location = some location →
        SourcesApart disk exchange.server sent.route location) := by
  rcases sentFile_spec isSent with ⟨answered, noInterpreter, asked, resolved, content⟩
  refine ⟨answered, forall_congr' fun location => forall_congr' fun _ => ?_⟩
  rcases resolveExisting_ok resolved with ⟨real, node, inspected, noLink⟩
  rcases readRegular_ok content with ⟨_, _, opened⟩
  have ending {extension : Bytes} (slashless : byte '/' ∉ extension) :
      extension <:+ sent.canonical ↔ extension <:+ sent.asked.takeWhile (· != 0) :=
    Disk.realpath_ending slashless inspected noLink real opened
  rcases Disk.realpath_ok real with ⟨found, reached, rendered⟩
  constructor
  · intro keeps
    refine ⟨?_, ?_, ?_, ?_⟩
    · intro plain extension listed ends
      rw [askedPath, plain] at asked
      exact absurd (asked ▸ ends) (keeps extension listed).1
    · intro directory extension listed
      rw [askedPath, if_pos directory] at asked
      rw [← asked]
      exact (keeps extension listed).1
    · intro _ extension listed slashless
      rw [← asked, ← ending slashless]
      exact (keeps extension listed).2
    · intro extension listed _ other again
      rw [← asked, reached, Except.ok.injEq] at again
      rw [← again, rendered]
      exact (keeps extension listed).2
  · intro apart extension listed
    have notAsked : ¬ extension <:+ sent.asked := by
      intro ends
      rw [asked, askedPath] at ends
      split at ends
      next directory => exact apart.index directory extension listed ends
      next plain =>
        exact apart.named (Bool.not_eq_true _ ▸ plain) extension listed ends noInterpreter
    refine ⟨notAsked, fun ends => ?_⟩
    by_cases slashless : byte '/' ∈ extension
    · exact apart.nested extension listed slashless found (asked ▸ reached) (rendered ▸ ends)
    · rw [ending slashless] at ends
      by_cases zero : 0 ∈ sent.asked
      · exact apart.cut (asked ▸ zero) extension listed slashless (asked ▸ ends)
      · have whole : sent.asked.takeWhile (· != 0) = sent.asked :=
          List.takeWhile_eq_self_iff.mpr fun c listed =>
            bne_iff_ne.mpr fun same => zero (same ▸ listed)
        exact notAsked (whole ▸ ends)

/-! ## A script as an index -/

/-- A location of scripts, one of which is the index of its directory. -/
def scriptsConf : Bytes :=
  ["server \x7b", "    listen 0.0.0.0:8080;", "    location /cgi-bin \x7b",
    "        root www/cgi-bin;", "        index index.py;",
    "        cgi_handler .py /usr/bin/python3;", "    \x7d", "\x7d"].flatMap
      fun line => ascii line ++ [10]

def scriptsServer : ServerConfig :=
  match Config.parse scriptsConf with
  | .ok (server :: _) => server
  | _ => {}

/-- A script and a page in one directory. -/
def scriptsDisk : Disk where
  tree :=
    let directories := ((FileTree.empty {}).put [] (ascii "www") (.directory {})).put
      [ascii "www"] (ascii "cgi-bin") (.directory {})
    let place := [ascii "www", ascii "cgi-bin"]
    (directories.put place (ascii "index.py") (.file (ascii "secret") true)).put place
      (ascii "page.txt") (.file (ascii "page") true)
  directory := []

def readDirectory : Exchange where
  server := scriptsServer
  raw := ascii "GET /cgi-bin/ HTTP/1.1\r\nHost: a\r\n\r\n"

def readText : Exchange where
  server := scriptsServer
  raw := ascii "GET /cgi-bin/page.txt HTTP/1.1\r\nHost: a\r\n\r\n"

def sentIndex : SentFile where
  route := Router.resolve { method := ascii "GET", path := ascii "/cgi-bin/" } scriptsServer
  asked := ascii "www/cgi-bin/index.py"
  canonical := ascii "/www/cgi-bin/index.py"
  content := ascii "secret"

def sentText : SentFile where
  route := Router.resolve { method := ascii "GET", path := ascii "/cgi-bin/page.txt" }
    scriptsServer
  asked := ascii "www/cgi-bin/page.txt"
  canonical := ascii "/www/cgi-bin/page.txt"
  content := ascii "page"

theorem keepsSources_text :
    (answer scriptsDisk readText).1 =
        .response (fileResponse sentText.route sentText.asked sentText.content) ∧
      (sentText.KeepsSources ↔ ∀ location, sentText.route.location = some location →
        SourcesApart scriptsDisk readText.server sentText.route location) :=
  @keepsSources_iff scriptsDisk readText sentText (by decide +kernel)

/-- The source of the script is the index page. -/
theorem keepsSources_fails :
    Config.parse scriptsConf = .ok [scriptsServer] ∧
      sentFile scriptsDisk readDirectory = some sentIndex ∧
      (answer scriptsDisk readDirectory).1 =
        .response (fileResponse sentIndex.route sentIndex.asked (ascii "secret")) ∧
      ¬ sentIndex.KeepsSources := by
  have run : Config.parse scriptsConf = .ok [scriptsServer] ∧
      sentFile scriptsDisk readDirectory = some sentIndex ∧
      (answer scriptsDisk readDirectory).1 =
        .response (fileResponse sentIndex.route sentIndex.asked (ascii "secret")) ∧
      sentIndex.route.location.any (fun location =>
        location.cgiHandlers.contains (ascii ".py")) := by
    decide +kernel
  rcases run with ⟨accepted, isSent, answered, script⟩
  refine ⟨accepted, isSent, answered, fun keeps => ?_⟩
  rcases (Option.any_eq_true _ _).mp script with ⟨location, matched, handled⟩
  exact (keeps location matched (ascii ".py") (ExtTreeMap.mem_iff_contains.mpr handled)).1
    (by decide +kernel)

end IrcPlatform.Webserv
