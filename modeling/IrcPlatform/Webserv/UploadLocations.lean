import IrcPlatform.Library.FileChanges
import IrcPlatform.Webserv.Containment
import IrcPlatform.Webserv.DirectoryRedirects
import IrcPlatform.Webserv.Uploads

/-!
# The places of uploads

The `Location` of an upload is written from the path of the request, and the file is created in
the upload directory whatever that path is. The place leads to the file where the path means
itself in a target and is mapped back to the upload directory.
-/

namespace IrcPlatform.Webserv

open Std

/-- A location that shows what it takes has created a file, and told its place. -/
structure Uploaded (disk : Disk) (exchange : Exchange) (request : Request) (location : Location)
    (target : Bytes) : Prop where
  accepted : parseRequest exchange.raw exchange.server.maxBody = .ok request
  method : request.method = ascii "POST"
  routed : matchLocation exchange.server request.path = some location
  allowed : ascii "GET" ∈ location.methods ∧ ascii "POST" ∈ location.methods
  sameRoot : location.uploadDir = location.root
  /-- The parser of the configuration takes no other status. -/
  redirects : 300 ≤ location.redirectStatus
  created : ∃ response, (answer disk exchange).1 = .response response ∧ response.status = 201 ∧
    response.headers[ascii "Location"]? = some target

/-- The next request, for the place of the file, is answered with its contents. -/
def Retrieved (disk : Disk) (exchange : Exchange) (request : Request) (target host : Bytes) :
    Prop :=
  ∀ now writes, ∃ response,
    (answer { disk with tree := (answer disk exchange).2 }
      { server := exchange.server, raw := requestFor (ascii "GET") target host
        now := now, writes := writes }).1 = .response response ∧
    response.status = 200 ∧ response.body = request.body

/-- The path with one slash at its end. -/
def slashed (path : Bytes) : Bytes :=
  if path.getLast? = some (byte '/') then path else path ++ ascii "/"

/-- How the place of a file is routed. -/
def placeRoute (server : ServerConfig) (path name : Bytes) : RouteResult :=
  Router.resolve { method := ascii "GET", path := slashed path ++ name } server

/-- The place of a file is mapped to a path in this directory. -/
structure MappedTo (disk : Disk) (server : ServerConfig) (location : Location)
    (path name directory : Bytes) : Prop where
  diskPath : (placeRoute server path name).diskPath = directory ++ byte '/' :: name
  wholeDirectory : 0 ∉ directory
  sameDirectory : disk.realpath directory = disk.realpath location.uploadDir
  inside : FileSystem.LeadsInside disk
    (selectedRoot server (placeRoute server path name).location) directory
  short : (directory ++ byte '/' :: name).length < FileTree.maxPath

/-- The path means itself in a target, and the place of the file is mapped back to the upload
directory and served from there. -/
structure LeadsBack (disk : Disk) (server : ServerConfig) (location : Location)
    (request : Request) (name : Bytes) : Prop where
  literal : Literal request.path
  ready : (placeRoute server request.path name).status = .ready
  noScript : CgiHandler.matchesRoute (placeRoute server request.path name) = false
  mapped : ∃ directory, MappedTo disk server location request.path name directory
  shortName : ∀ canonical, disk.realpath location.uploadDir = .ok canonical →
    canonical.length + 1 + name.length < FileTree.maxPath
  small : request.body.length ≤ FileSystem.maxFile

/-! ## The file -/

namespace FileSystem

variable {disk : Disk} {writes : List WriteOutcome} {directory body : Bytes} {name : EntryName}
  {tree : FileTree}

/-- The directory of a new file is opened under its canonical path, and can be searched. -/
theorem createExclusive_opened
    (created : createExclusive disk writes directory name body = (.ok (), tree)) :
    ∃ canonical parent access, canonicalPath disk directory = .ok canonical ∧
      disk.openDirectory false canonical = .ok (parent, access) ∧ access.search = true := by
  unfold createExclusive at created
  split at created
  · simp at created
  next canonical found =>
    split at created
    · simp at created
    next parent access opened =>
      split at created
      · simp at created
      next fresh new =>
        refine ⟨canonical, parent, access, found, opened, ?_⟩
        unfold Disk.createNew at new
        split at new
        · cases new
        next searched => simpa using searched

/-- A new file can be read under a path of its directory and its name, from every root that the
directory lies inside. -/
theorem served_created {root path : Bytes}
    (created : createExclusive disk writes directory name body = (.ok (), tree))
    (wholePath : 0 ∉ path) (same : disk.realpath path = disk.realpath directory)
    (inside : LeadsInside disk root path)
    (short : (path ++ byte '/' :: name.text).length < FileTree.maxPath)
    (shortEntry : ∀ canonical, disk.realpath directory = .ok canonical →
      canonical.length + 1 + name.text.length < FileTree.maxPath)
    (shortName : name.text.length ≤ FileTree.maxName) (small : body.length ≤ maxFile) :
    ∃ resolved, resolveExisting { disk with tree := tree } root
        (path ++ byte '/' :: name.text) = .ok resolved ∧
      Disk.stat { disk with tree := tree } resolved = .ok (.file body true) ∧
      readRegular { disk with tree := tree } resolved = .ok body := by
  rcases createExclusive_ok created with ⟨parent, resolved, absent, nodes⟩
  rcases createExclusive_opened created with ⟨canonical, opened, access, found, asked, searched⟩
  rcases Disk.openDirectory_ok asked with ⟨resolvedCanonical, here⟩
  obtain rfl : opened = parent :=
    Except.ok.inj ((resolve_of_canonicalPath found asked).symm.trans resolved)
  have real := realpath_of_canonicalPath found
  -- the path leads to the directory that was opened
  rcases Disk.realpath_ok (same.trans real) with ⟨again, resolvedPath, rfl⟩
  rcases FileTree.resolve_present resolvedPath with ⟨_, presentAgain, plainAgain⟩
  obtain rfl : opened = again := FileTree.resolve_render presentAgain plainAgain resolvedCanonical
  have within : disk.tree.Within tree := by
    intro path node present
    rw [nodes, if_neg]
    · exact present
    · rintro rfl
      rw [absent] at present
      cases present
  have entry : tree.node (opened ++ [name.text]) = some (.file body true) := by
    rw [nodes, if_pos rfl]
  have hereNow := within _ _ here
  have noLink (target : Bytes) : tree.node opened ≠ some (.link target) := by
    rw [hereNow]
    exact fun same => Node.noConfusion (Option.some.inj same)
  have onward (followLast : Bool) (follow : Bytes → Path → List Bytes → Except Errno Path) :
      tree.walk follow followLast (name.text.splitOn (byte '/')) opened =
        .ok (opened ++ [name.text]) :=
    FileTree.walk_child hereNow searched name.valid shortName entry
      fun _ same => Node.noConfusion same
  have plain : 0 ∉ path ++ byte '/' :: name.text := by
    rw [List.mem_append, List.mem_cons, not_or, not_or]
    exact ⟨wholePath, by decide, name.valid.2.2.2.2⟩
  have byPath (followLast : Bool) : tree.resolve disk.directory followLast
      (path ++ byte '/' :: name.text) = .ok (opened ++ [name.text]) :=
    FileTree.resolve_more plain short (FileTree.resolve_within within resolvedPath) noLink
      (onward followLast)
  have shortNow : (FileTree.render (opened ++ [name.text])).length < FileTree.maxPath := by
    refine Nat.lt_of_le_of_lt ?_ (shortEntry _ real)
    rw [FileTree.render_concat, FileTree.render, List.length_append, List.length_cons]
    split
    next atRoot =>
      have one : (ascii "/").length = 1 := rfl
      rw [List.isEmpty_iff.mp atRoot, List.flatMap_nil, List.length_nil]
      omega
    · omega
  have byName (followLast : Bool) : tree.resolve disk.directory followLast
      (FileTree.render (opened ++ [name.text])) = .ok (opened ++ [name.text]) :=
    FileTree.resolve_render_child entry shortNow
      (FileTree.resolve_within within resolvedCanonical) noLink (onward followLast)
  refine ⟨FileTree.render (opened ++ [name.text]), ?_, ?_, ?_⟩
  · rcases inside with ⟨canonicalRoot, canonical, realRoot, realPath, extended⟩
    obtain rfl : canonical = FileTree.render opened :=
      Except.ok.inj (realPath.symm.trans (same.trans real))
    have rootNow : canonicalPath { disk with tree := tree } root = .ok canonicalRoot := by
      rw [canonicalPath, Disk.realpath_within within realRoot]
      rfl
    have fileNow : canonicalPath { disk with tree := tree } (path ++ byte '/' :: name.text) =
        .ok (FileTree.render (opened ++ [name.text])) := by
      rw [canonicalPath, Disk.realpath_of_resolve (byPath true) shortNow]
      rfl
    have looked : Disk.lstat { disk with tree := tree } (path ++ byte '/' :: name.text) =
        .ok (.file body true) := by
      rw [Disk.lstat, Disk.inspect_of_resolve (byPath false) entry]
      rfl
    have below : pathInside canonicalRoot (FileTree.render (opened ++ [name.text])) = true := by
      have validNow := FileTree.validName_of_resolve (byPath true)
      have valid (name : Bytes) (listed : name ∈ opened) : name ≠ [] ∧ byte '/' ∉ name :=
        ⟨(validNow name (List.mem_append_left _ listed)).1,
          (validNow name (List.mem_append_left _ listed)).2.2.2.1⟩
      rw [pathInside_iff (Disk.canonical_of_realpath realRoot)
        (FileTree.canonicalText_render validNow), FileTree.pathSegments_render fun name listed =>
          ⟨(validNow name listed).1, (validNow name listed).2.2.2.1⟩]
      rw [FileTree.pathSegments_render valid] at extended
      exact extended.trans (List.prefix_append _ _)
    rw [resolveExisting, rootNow]
    simp only [looked, fileNow, Except.bind, below, if_true]
  · rw [Disk.stat, Disk.inspect_of_resolve (byName true) entry]
    rfl
  · have opened : Disk.openRead { disk with tree := tree } false
        (FileTree.render (opened ++ [name.text])) =
          .ok (opened ++ [name.text], .file body true) := by
      rw [Disk.openRead, Disk.inspect_of_resolve (byName false) entry]
      rfl
    rw [readRegular, openRegular, opened]
    dsimp only
    rw [if_neg (Nat.not_lt.mpr small)]
    rfl

end FileSystem

/-! ## The upload -/

section Uploaded

variable {disk : Disk} {exchange : Exchange} {request : Request} {location : Location}
  {target host : Bytes}

theorem Uploaded.ready (uploaded : Uploaded disk exchange request location target) :
    (Router.resolve request exchange.server).status = .ready ∧
      startsCgi request exchange.server = false ∧
      (UploadHandler.handle disk request (Router.resolve request exchange.server)
        exchange.server exchange.now exchange.writes).1.status = 201 := by
  rcases uploaded.created with ⟨response, answered, status, _⟩
  have known : (Router.resolve request exchange.server).location = some location := by
    rw [Router.resolve_location, uploaded.routed]
  unfold answer at answered
  simp only [uploaded.accepted] at answered
  split at answered
  · cases answered
  next noScript =>
    rw [Answer.response.injEq] at answered
    rw [← answered] at status
    unfold Dispatcher.dispatch at status
    dsimp only at status
    split at status
    · simp [Dispatcher.methodNotAllowed, ResponseFactory.error] at status
    · have moved := uploaded.redirects
      simp only [Dispatcher.redirect, known] at status
      omega
    next ready =>
      rw [if_neg (by rw [uploaded.method]; decide), if_pos uploaded.method] at status
      exact ⟨ready, by simpa using noScript, status⟩

theorem Uploaded.stored (uploaded : Uploaded disk exchange request location target) :
    ∃ valid : UploadHandler.validFileName (UploadHandler.fileName request exchange.now),
      FileSystem.createExclusive disk exchange.writes location.uploadDir
        ⟨UploadHandler.fileName request exchange.now,
          UploadHandler.validName_of_validFileName valid⟩ request.body =
        (.ok (), (answer disk exchange).2) ∧
      target = request.path ++ ascii "/" ++ UploadHandler.fileName request exchange.now := by
  rcases uploaded.created with ⟨response, answered, _, place⟩
  rcases uploaded.ready with ⟨ready, noScript, status⟩
  have known : (Router.resolve request exchange.server).location = some location := by
    rw [Router.resolve_location, uploaded.routed]
  have handled : Dispatcher.dispatch disk request exchange.server exchange.now exchange.writes =
      UploadHandler.handle disk request (Router.resolve request exchange.server)
        exchange.server exchange.now exchange.writes := by
    unfold Dispatcher.dispatch
    simp only [ready]
    rw [if_neg (by rw [uploaded.method]; decide), if_pos uploaded.method]
  unfold answer at answered ⊢
  simp only [uploaded.accepted, noScript, Bool.false_eq_true, if_false, handled,
    Answer.response.injEq] at answered ⊢
  rcases UploadHandler.handle_stored status with ⟨own, tree, chosen, valid, stored, whole⟩
  obtain rfl : own = location := Option.some.inj (chosen.symm.trans known)
  refine ⟨valid, ?_, ?_⟩
  · rw [whole]
    exact stored
  · rw [whole] at answered
    rw [← answered] at place
    have other : compare (ascii "Content-Type") (ascii "Location") ≠ .eq := by decide
    rw [UploadHandler.createdResponse, ExtTreeMap.getElem?_insert, if_neg other,
      ExtTreeMap.getElem?_insert_self, Option.some.injEq] at place
    exact place.symm

end Uploaded

/-! ## The place of the file -/

section Place

variable {rest name : Bytes}

theorem nameCharacter_plain (c : UInt8) (allowed : UploadHandler.nameCharacter c = true) :
    isControl c = false ∧ isStreamSpace c = false ∧ c ∉ ascii "%?\\ " := by
  revert allowed
  apply @forall_byte (fun c => UploadHandler.nameCharacter c = true →
    isControl c = false ∧ isStreamSpace c = false ∧ c ∉ ascii "%?\\ ") _ c
  decide +kernel

theorem nameCharacter_of_mem (valid : UploadHandler.validFileName name) {c : UInt8}
    (listed : c ∈ name) : UploadHandler.nameCharacter c = true := by
  simp only [UploadHandler.validFileName, Bool.and_eq_true, List.all_eq_true] at valid
  exact valid.2 c listed

theorem length_of_validFileName (valid : UploadHandler.validFileName name) :
    name.length ≤ 128 := by
  simp only [UploadHandler.validFileName, Bool.and_eq_true, decide_eq_true_eq] at valid
  exact valid.1.1.2

theorem segment_of_validFileName (valid : UploadHandler.validFileName name) : Segment name := by
  rcases UploadHandler.validName_of_validFileName valid with ⟨filled, notDot, notDots, noSlash, _⟩
  exact ⟨filled, ⟨notDot, notDots⟩, noSlash⟩

theorem literal_of_validFileName (valid : UploadHandler.validFileName name) : Literal name :=
  fun c known listed => (nameCharacter_plain c (nameCharacter_of_mem valid listed)).2.2 known

/-- A segment can be added behind a slash. -/
theorem Confined.child (confined : Confined rest)
    (ends : rest = [] ∨ rest.getLast? = some (byte '/')) (segment : Segment name)
    (plain : ∀ c ∈ name, isControl c = false) : Confined (rest ++ name) := by
  have alone : name.splitOn (byte '/') = [name] := List.splitOn_eq_singleton segment.no_slash
  have controls : ∀ c ∈ rest ++ name, isControl c = false := by
    intro c listed
    rcases List.mem_append.mp listed with before | inName
    · exact confined.no_controls c before
    · exact plain c inName
  rcases ends with rfl | slash
  · rw [List.nil_append] at controls ⊢
    refine ⟨?_, ?_, controls⟩
    · rw [alone, List.forall_mem_singleton]
      exact segment.no_dots
    · rw [alone]
      exact fun _ listed => absurd listed List.not_mem_nil
  · rcases List.getLast?_eq_some_iff.mp slash with ⟨before, rfl⟩
    have pieces : (before ++ [byte '/'] ++ name).splitOn (byte '/') =
        before.splitOn (byte '/') ++ [name] := by
      rw [List.append_assoc, List.singleton_append, List.splitOn_append_cons_self, alone]
    have upper : (before ++ [byte '/']).splitOn (byte '/') = before.splitOn (byte '/') ++ [[]] :=
      splitOn_slash before
    refine ⟨?_, ?_, controls⟩
    · have noDots := confined.no_dots
      rw [upper, List.forall_mem_append] at noDots
      rw [pieces, List.forall_mem_append, List.forall_mem_singleton]
      exact ⟨noDots.1, segment.no_dots⟩
    · have noGaps := confined.no_gaps
      rw [upper, List.dropLast_concat] at noGaps
      rw [pieces, List.dropLast_concat]
      exact noGaps

theorem kept_child (ends : rest = [] ∨ rest.getLast? = some (byte '/')) (segment : Segment name) :
    kept ((rest ++ name).splitOn (byte '/')) = kept (rest.splitOn (byte '/') ++ [name]) := by
  have alone : name.splitOn (byte '/') = [name] := List.splitOn_eq_singleton segment.no_slash
  rcases ends with rfl | slash
  · rw [List.nil_append, alone]
    rfl
  · rcases List.getLast?_eq_some_iff.mp slash with ⟨before, rfl⟩
    have pieces : (before ++ [byte '/'] ++ name).splitOn (byte '/') =
        before.splitOn (byte '/') ++ [name] := by
      rw [List.append_assoc, List.singleton_append, List.splitOn_append_cons_self, alone]
    have upper : (before ++ [byte '/']).splitOn (byte '/') = before.splitOn (byte '/') ++ [[]] :=
      splitOn_slash before
    have gap : kept [[]] = [] := rfl
    simp only [kept] at gap
    rw [pieces, upper]
    simp only [kept, List.filter_append, gap, List.append_nil]

/-- The place of a file is read as the path with its name behind one slash. -/
theorem decodePath_place (confined : Confined rest) (literal : Literal (byte '/' :: rest))
    (valid : UploadHandler.validFileName name) :
    decodePath (byte '/' :: rest ++ ascii "/" ++ name) =
      some (slashed (byte '/' :: rest) ++ name) := by
  have segment := segment_of_validFileName valid
  have plainName : ∀ c ∈ name, isControl c = false := fun c listed =>
    (nameCharacter_plain c (nameCharacter_of_mem valid listed)).1
  have literalName := literal_of_validFileName valid
  unfold slashed
  split
  next slash =>
    have ends : rest = [] ∨ rest.getLast? = some (byte '/') := by
      by_cases none : rest = []
      · exact Or.inl none
      · rw [List.getLast?_cons_of_ne_nil none] at slash
        exact Or.inr slash
    have child := confined.child ends segment plainName
    have literalChild : Literal (byte '/' :: (rest ++ name)) := literal.append literalName
    have literalPlace := (literal.append literal_slash).append literalName
    have plainChild : ∀ c ∈ byte '/' :: (rest ++ name), isControl c = false :=
      List.forall_mem_cons.mpr ⟨by decide, child.no_controls⟩
    have plainPlace : ∀ c ∈ byte '/' :: rest ++ ascii "/" ++ name, isControl c = false := by
      rw [List.forall_mem_append, List.forall_mem_append, List.forall_mem_cons]
      exact ⟨⟨⟨by decide, confined.no_controls⟩, List.forall_mem_singleton.mpr rfl⟩, plainName⟩
    have own := decodePath_eq_self child literalChild.apart.1 literalChild.apart.2.2.1
    have pieces : (rest ++ ascii "/" ++ name).splitOn (byte '/') =
        rest.splitOn (byte '/') ++ [name] := by
      have split : (rest ++ byte '/' :: name).splitOn (byte '/') =
          rest.splitOn (byte '/') ++ name.splitOn (byte '/') :=
        List.splitOn_append_cons_self rest name
      rw [List.splitOn_eq_singleton segment.no_slash] at split
      rw [List.append_assoc]
      exact split
    have noUp : ascii ".." ∉ rest.splitOn (byte '/') ++ [name] := by
      rw [List.mem_append, List.mem_singleton, not_or]
      exact ⟨fun listed => (confined.no_dots _ listed).2 rfl,
        fun same => segment.no_dots.2 same.symm⟩
    have noUpChild : ascii ".." ∉ (rest ++ name).splitOn (byte '/') :=
      fun listed => (child.no_dots _ listed).2 rfl
    have endsName : (byte '/' :: (rest ++ name)).getLast? ≠ some (byte '/') :=
      getLast?_name (byte '/' :: rest) segment
    -- the two slashes enclose an empty segment, which is dropped
    rw [decodePath_eq (decodeCharacters_eq_self plainChild literalChild.apart.1
      literalChild.apart.2.2.1), List.drop_one, List.tail_cons, if_neg noUpChild,
      kept_child ends segment, restoreSlash_of_getLast? _ endsName] at own
    rw [decodePath_eq (decodeCharacters_eq_self plainPlace literalPlace.apart.1
      literalPlace.apart.2.2.1), List.drop_one]
    have behind : (byte '/' :: rest ++ ascii "/" ++ name).tail = rest ++ ascii "/" ++ name := rfl
    rw [behind, pieces, if_neg noUp, restoreSlash_of_getLast? _ (getLast?_name _ segment)]
    exact own
  next noSlash =>
    have child := (confined_slash confined noSlash).child (Or.inr List.getLast?_concat) segment
      plainName
    have literalChild := (literal.append literal_slash).append literalName
    exact decodePath_eq_self child literalChild.apart.1 literalChild.apart.2.2.1

end Place

section Retrieved

variable {disk : Disk} {exchange : Exchange} {request : Request} {location : Location}
  {target host : Bytes}

theorem StaticHandler.handle_file {route : RouteResult} {config : ServerConfig}
    {resolved content body : Bytes} {readable : Bool}
    (found : FileSystem.resolveExisting disk (selectedRoot config route.location)
      route.diskPath = .ok resolved)
    (isFile : disk.stat resolved = .ok (.file content readable))
    (read : FileSystem.readRegular disk resolved = .ok body) :
    StaticHandler.handle disk request route config =
      fileResponse route route.diskPath body := by
  have chosen : StaticHandler.chooseFile disk request route config =
      .ok (resolved, route.diskPath) := by
    rw [StaticHandler.chooseFile, found]
    simp only [isFile]
  rw [StaticHandler.handle, chosen]
  simp only [read, fileResponse]

/-- The request for the place of a file is parsed. -/
theorem parseRequest_place {rest name : Bytes} (confined : Confined rest)
    (literal : Literal (byte '/' :: rest)) (valid : UploadHandler.validFileName name)
    (plain : InLine host) (maxBody : Nat) :
    ∃ next, parseRequest
        (requestFor (ascii "GET") (byte '/' :: rest ++ ascii "/" ++ name) host) maxBody = .ok next ∧
      next.method = ascii "GET" ∧ next.path = slashed (byte '/' :: rest) ++ name := by
  have visible : ∀ c ∈ byte '/' :: rest ++ ascii "/" ++ name, isStreamSpace c = false := by
    rw [List.forall_mem_append, List.forall_mem_append]
    exact ⟨⟨visible_path confined literal, List.forall_mem_singleton.mpr rfl⟩, fun c listed =>
      (nameCharacter_plain c (nameCharacter_of_mem valid listed)).2.1⟩
  have noMark : ∀ c ∈ byte '/' :: rest ++ ascii "/" ++ name, (c != byte '?') = true := by
    intro c listed
    rw [bne_iff_ne]
    rintro rfl
    rcases List.mem_append.mp listed with front | inName
    · rcases List.mem_append.mp front with inPath | slash
      · exact literal.apart.2.1 inPath
      · exact absurd slash (by decide)
    · exact (literal_of_validFileName valid).apart.2.1 inName
  have decoded : decodePath (encodedPath (byte '/' :: rest ++ ascii "/" ++ name)) =
      some (slashed (byte '/' :: rest) ++ name) := by
    rw [encodedPath, List.takeWhile_eq_self_iff.mpr noMark]
    exact decodePath_place confined literal valid
  exact ⟨_, parseRequest_requestFor (by decide) (by decide) rfl visible plain decoded maxBody, rfl,
    rfl⟩

theorem answer_file {next : Request} {resolved content body : Bytes} {readable : Bool}
    (accepted : parseRequest exchange.raw exchange.server.maxBody = .ok next)
    (method : next.method = ascii "GET")
    (ready : (Router.resolve next exchange.server).status = .ready)
    (noScript : CgiHandler.matchesRoute (Router.resolve next exchange.server) = false)
    (found : FileSystem.resolveExisting disk
      (selectedRoot exchange.server (Router.resolve next exchange.server).location)
      (Router.resolve next exchange.server).diskPath = .ok resolved)
    (isFile : disk.stat resolved = .ok (.file content readable))
    (read : FileSystem.readRegular disk resolved = .ok body) :
    ∃ response, (answer disk exchange).1 = .response response ∧ response.status = 200 ∧
      response.body = body := by
  have served : startsCgi next exchange.server = false := by
    simp only [startsCgi, noScript, Bool.and_false]
  refine ⟨fileResponse (Router.resolve next exchange.server)
    (Router.resolve next exchange.server).diskPath body, ?_, rfl, rfl⟩
  unfold answer
  simp only [accepted, served, Bool.false_eq_true, if_false]
  unfold Dispatcher.dispatch
  simp only [ready]
  rw [if_neg (by rw [method]; decide), if_neg (by rw [method]; decide),
    StaticHandler.handle_file found isFile read]

/-- A file that a client has posted is read back from the place that the client was told, if that
place leads back to it. -/
theorem retrieved_of_leadsBack
    (uploaded : Uploaded disk exchange request location target) (plain : InLine host)
    (leads : LeadsBack disk exchange.server location request
      (UploadHandler.fileName request exchange.now)) :
    Retrieved disk exchange request target host := by
  intro now writes
  rcases uploaded.stored with ⟨valid, stored, spelled⟩
  rcases parseRequest_path uploaded.accepted with ⟨rest, rooted, confined⟩
  rcases leads.mapped with ⟨directory, mapped⟩
  have shortName := length_of_validFileName valid
  rcases FileSystem.served_created stored mapped.wholeDirectory mapped.sameDirectory mapped.inside
    mapped.short leads.shortName (Nat.le_trans shortName (by decide)) leads.small with
    ⟨resolved, found, isFile, read⟩
  have literal := leads.literal
  rw [rooted] at literal spelled
  rcases parseRequest_place confined literal valid plain exchange.server.maxBody with
    ⟨next, accepted, method, path⟩
  rw [← spelled] at accepted
  rw [← rooted] at path
  have route : Router.resolve next exchange.server = placeRoute exchange.server request.path
      (UploadHandler.fileName request exchange.now) := by
    simp only [placeRoute, Router.resolve, method, path]
  have ready := leads.ready
  have noScript := leads.noScript
  rw [← mapped.diskPath] at found
  rw [← route] at ready noScript found
  exact answer_file accepted method ready noScript found isFile read

end Retrieved

/-- A location that takes files and shows them. -/
def uploadLocation : Location where
  path := ascii "/upload"
  root := ascii "/www/uploads"
  uploadDir := ascii "/www/uploads"
  methods := [ascii "GET", ascii "POST"]

/-- A client posts a file to a path. -/
def postNote (path : Bytes) : Exchange where
  server := { locations := [uploadLocation] }
  raw := ascii "POST " ++ path ++
    ascii " HTTP/1.1\r\nHost: a\r\nX-Filename: n\r\nContent-Length: 2\r\n\r\nhi"

def noteRequest (path : Bytes) : Request where
  method := ascii "POST"
  target := path
  path := path
  version := ascii "HTTP/1.1"
  headers := (((∅ : ExtTreeMap Bytes Bytes).insert (ascii "host") (ascii "a")).insert
    (ascii "x-filename") (ascii "n")).insert (ascii "content-length") (ascii "2")
  body := ascii "hi"

theorem retrieved_of_leadsBack_note :
    Retrieved defaultSite.disk (postNote (ascii "/upload")) (noteRequest (ascii "/upload"))
      (ascii "/upload/n") (ascii "a") := by
  have uploaded : Uploaded defaultSite.disk (postNote (ascii "/upload"))
      (noteRequest (ascii "/upload")) uploadLocation (ascii "/upload/n") :=
    ⟨by decide +kernel, rfl, by decide +kernel, by decide, rfl, by decide,
      UploadHandler.createdResponse (noteRequest (ascii "/upload")) (ascii "n"),
      by decide +kernel, rfl, by decide +kernel⟩
  have real : defaultSite.disk.realpath (ascii "/www/uploads") = .ok (ascii "/www/uploads") := by
    decide +kernel
  have mapped : MappedTo defaultSite.disk (postNote (ascii "/upload")).server uploadLocation
      (noteRequest (ascii "/upload")).path
      (UploadHandler.fileName (noteRequest (ascii "/upload")) (postNote (ascii "/upload")).now)
      (ascii "/www/uploads") :=
    ⟨by decide +kernel, by decide, rfl,
      ⟨ascii "/www/uploads", ascii "/www/uploads", by decide +kernel, real, by decide +kernel⟩,
      by decide +kernel⟩
  have literal : Literal (ascii "/upload") := by decide +kernel
  refine retrieved_of_leadsBack uploaded (by decide)
    ⟨literal, by decide +kernel, by decide +kernel, ⟨_, mapped⟩, fun canonical found => ?_,
      by decide +kernel⟩
  rw [← Except.ok.inj (real.symm.trans found)]
  decide +kernel

/-- A file posted to a path below the location is not found at the place that is told. -/
theorem retrieved_fails_below :
    Uploaded defaultSite.disk (postNote (ascii "/upload/s")) (noteRequest (ascii "/upload/s"))
      uploadLocation (ascii "/upload/s/n") ∧
    ¬Retrieved defaultSite.disk (postNote (ascii "/upload/s")) (noteRequest (ascii "/upload/s"))
      (ascii "/upload/s/n") (ascii "a") := by
  refine ⟨⟨by decide +kernel, rfl, by decide +kernel, by decide, rfl, by decide,
    UploadHandler.createdResponse (noteRequest (ascii "/upload/s")) (ascii "n"),
    by decide +kernel, rfl, by decide +kernel⟩, fun retrieved => ?_⟩
  rcases retrieved 0 [] with ⟨response, answered, status, _⟩
  have missing : (answer { defaultSite.disk with
      tree := (answer defaultSite.disk (postNote (ascii "/upload/s"))).2 }
      { server := (postNote (ascii "/upload/s")).server
        raw := requestFor (ascii "GET") (ascii "/upload/s/n") (ascii "a") }).1 =
      .response (ResponseFactory.error defaultSite.disk 404
        (postNote (ascii "/upload/s")).server) := by decide +kernel
  rw [missing, Answer.response.injEq] at answered
  rw [← answered, StaticHandler.error_status] at status
  cases status

end IrcPlatform.Webserv
