import IrcPlatform.Webserv.Routes
import IrcPlatform.Webserv.Targets

/-!
# Redirects of directories

A directory that is asked for without a slash at the end is answered with a redirect to the path
with the slash. The redirect is written from the decoded path, and so it can be followed only
where the path is its own encoding; the path with the slash leads to the same directory unless a
location of its own or the longest allowed path is in the way.
-/

namespace IrcPlatform.Webserv

open Std

/-! ## What is asked -/

/-- A request is answered with a redirect because it names a directory without the slash. -/
structure Redirected (disk : Disk) (config : ServerConfig) (raw : Bytes) (maxBody : Nat)
    (request : Request) (directory target : Bytes) : Prop where
  accepted : parseRequest raw maxBody = .ok request
  handled : request.method ≠ ascii "DELETE" ∧ request.method ≠ ascii "POST"
  ready : (Router.resolve request config).status = .ready
  resolved : FileSystem.resolveExisting disk
    (selectedRoot config (Router.resolve request config).location)
    (Router.resolve request config).diskPath = .ok directory
  isDirectory : ∃ access, disk.stat directory = .ok (.directory access)
  moved : (StaticHandler.handle disk request (Router.resolve request config) config).status = 301
  location : (StaticHandler.handle disk request (Router.resolve request config)
    config).headers[ascii "Location"]? = some target

/-- The next request is for the directory that the first one asked for. -/
structure Arrives (disk : Disk) (config : ServerConfig) (request : Request) (directory : Bytes)
    (next : Request) : Prop where
  path : next.path = request.path ++ ascii "/"
  query : next.query = request.query
  ready : (Router.resolve next config).status = .ready
  sameDirectory : FileSystem.resolveExisting disk
    (selectedRoot config (Router.resolve next config).location)
    (Router.resolve next config).diskPath = .ok directory
  settled : (StaticHandler.handle disk next (Router.resolve next config) config).status ≠ 301

/-- The redirect, asked for with the same method, leads to the directory. -/
def Followed (disk : Disk) (config : ServerConfig) (request : Request)
    (directory target host : Bytes) (maxBody : Nat) : Prop :=
  ∃ next, parseRequest (requestFor request.method target host) maxBody = .ok next ∧
    Arrives disk config request directory next

/-- The first location whose path is the one with the slash. -/
def slashLocation (config : ServerConfig) (request : Request) : Option Location :=
  config.locations.find? fun location => location.path == request.path ++ ascii "/"

/-- No byte of the path means something else in a target. -/
def Literal (path : Bytes) : Prop := ∀ c ∈ ascii "%?\\ ", c ∉ path

instance (path : Bytes) : Decidable (Literal path) :=
  inferInstanceAs (Decidable (∀ c ∈ ascii "%?\\ ", _))

/-- The path means itself in a request line, and a slash at its end is of no account. -/
structure Reachable (disk : Disk) (config : ServerConfig) (request : Request)
    (directory : Bytes) : Prop where
  literal : Literal request.path
  /-- A location of its own serves the same directory. -/
  named (location : Location) : slashLocation config request = some location →
    request.method ∈ location.methods ∧ location.redirect = [] ∧
      FileSystem.resolveExisting disk location.root (location.root ++ ascii "/") = .ok directory
  unnamed : slashLocation config request = none →
    locationPath (matchLocation config request.path) = request.path ∨
      (((Router.resolve request config).diskPath ++ ascii "/").takeWhile (· != 0)).length <
        FileTree.maxPath

/-! ## The location of the path with a slash -/

/-- The first location with a path is chosen for it. -/
theorem matchLocation_own {config : ServerConfig} {path : Bytes} {location : Location}
    (found : config.locations.find? (fun location => location.path == path) = some location) :
    matchLocation config path = some location := by
  rcases List.find?_eq_some_iff_append.mp found with ⟨own, before, behind, parts, others⟩
  have same : location.path = path := by simpa using own
  have covered : covers path location = true :=
    covers_iff.mpr ⟨same ▸ List.prefix_rfl, Or.inr (Or.inl same.symm)⟩
  rw [matchLocation_eq_argmax]
  refine List.mem_argmax_iff.mpr ⟨?_, ?_, ?_⟩
  · exact List.mem_filter.mpr ⟨List.mem_of_find?_eq_some found, covered⟩
  · intro other listed
    rw [same]
    exact (covers_iff.mp (List.mem_filter.mp listed).2).starts.length_le
  · intro other listed longer
    have starts := (covers_iff.mp (List.mem_filter.mp listed).2).starts
    have otherPath : other.path = path :=
      starts.eq_of_length (Nat.le_antisymm starts.length_le (same ▸ longer))
    have absent {next : Location} (named : next.path = path) :
        next ∉ before.filter (covers path) := by
      intro inside
      have differs := others next (List.mem_of_mem_filter inside)
      simp [named] at differs
    rw [parts, List.filter_append, List.filter_cons_of_pos covered,
      List.idxOf_append_of_notMem (absent same), List.idxOf_append_of_notMem (absent otherPath),
      List.idxOf_cons_self]
    exact Nat.add_le_add_left (Nat.zero_le _) _

/-- Only a location of its own tells a path with a slash at the end from the path without. -/
theorem covers_slash {path : Bytes} {location : Location}
    (other : location.path ≠ path ++ ascii "/") :
    Covers location (path ++ ascii "/") ↔ Covers location path := by
  constructor
  · intro covered
    have shorter : location.path <+: path :=
      (List.prefix_concat_iff.mp covered.starts).resolve_left other
    refine ⟨shorter, ?_⟩
    rcases covered.boundary with ends | same | next
    · exact Or.inl ends
    · exact absurd same.symm other
    · rcases List.prefix_concat_iff.mp next with whole | inside
      · exact Or.inr (Or.inl (List.append_cancel_right whole).symm)
      · exact Or.inr (Or.inr inside)
  · intro covered
    refine ⟨covered.starts.trans (List.prefix_append _ _), ?_⟩
    rcases covered.boundary with ends | same | next
    · exact Or.inl ends
    · exact Or.inr (Or.inr (same ▸ List.prefix_rfl))
    · exact Or.inr (Or.inr (next.trans (List.prefix_append _ _)))

theorem matchLocation_slash {config : ServerConfig} {path : Bytes}
    (missing : config.locations.find? (fun location => location.path == path ++ ascii "/") = none) :
    matchLocation config (path ++ ascii "/") = matchLocation config path := by
  rw [matchLocation_eq_argmax, matchLocation_eq_argmax]
  congr 1
  refine List.filter_congr fun location listed => ?_
  have other := List.find?_eq_none.mp missing location listed
  rw [Bool.eq_iff_iff, covers_iff, covers_iff, covers_slash (by simpa using other)]

/-! ## The route of the path with a slash -/

theorem Router.resolve_ready_iff {request : Request} {config : ServerConfig} :
    (Router.resolve request config).status = .ready ↔
      request.method ∈ selectedMethods config (matchLocation config request.path) ∧
        configuredRedirect (matchLocation config request.path) = [] := by
  unfold Router.resolve
  dsimp only
  by_cases allowed : request.method ∈ selectedMethods config (matchLocation config request.path)
  · rw [if_neg (by simpa using allowed)]
    split
    next redirects => simpa [allowed] using redirects
    next stays => simpa [allowed] using stays
  · rw [if_pos (by simpa using allowed)]
    simp [allowed]

theorem withoutSlash_concat {rest : Bytes} (filled : rest ≠ []) :
    withoutSlash (rest ++ ascii "/") = withoutSlash rest ++ ascii "/" := by
  rcases List.exists_cons_of_ne_nil filled with ⟨c, others, rfl⟩
  rw [withoutSlash, withoutSlash, List.cons_append, List.head?_cons, List.head?_cons]
  split <;> rfl

variable {config : ServerConfig} {request next : Request}

/-- Without a location of its own the path with the slash is routed as the path without it. -/
theorem route_slash (ready : (Router.resolve request config).status = .ready)
    (missing : slashLocation config request = none) (method : next.method = request.method)
    (path : next.path = request.path ++ ascii "/") :
    (Router.resolve next config).status = .ready ∧
      (Router.resolve next config).location = (Router.resolve request config).location ∧
      (Router.resolve next config).diskPath =
        if locationPath (matchLocation config request.path) = request.path
        then (Router.resolve request config).diskPath
        else (Router.resolve request config).diskPath ++ ascii "/" := by
  have same : matchLocation config next.path = matchLocation config request.path := by
    rw [path]
    exact matchLocation_slash missing
  have readyToo : (Router.resolve next config).status = .ready := by
    rw [Router.resolve_ready_iff] at ready ⊢
    rwa [same, method]
  refine ⟨readyToo, ?_, ?_⟩
  · rw [Router.resolve_location, Router.resolve_location, same]
  · have starts : locationPath (matchLocation config request.path) <+: request.path :=
      beginning_of_locationPath rfl
    have startsToo : locationPath (matchLocation config next.path) <+: next.path :=
      beginning_of_locationPath rfl
    rw [Router.resolve_diskPath ready, Router.resolve_diskPath readyToo, relativePath_eq starts,
      relativePath_eq startsToo, same, path]
    rcases starts with ⟨rest, parts⟩
    generalize locationPath (matchLocation config request.path) = front at parts
    rw [← parts, List.append_assoc, List.drop_left, List.drop_left]
    split
    next whole =>
      have empty : rest = [] := by simpa using whole
      rw [empty]
      rfl
    next below =>
      have filled : rest ≠ [] := by
        rintro rfl
        exact below (List.append_nil _).symm
      rw [withoutSlash_concat filled, List.append_assoc, List.cons_append]

/-- A location of its own takes the path with the slash to its root. -/
theorem route_own {location : Location} (found : slashLocation config request = some location)
    (path : next.path = request.path ++ ascii "/") :
    ((Router.resolve next config).status = .ready ↔
      next.method ∈ location.methods ∧ location.redirect = []) ∧
    (Router.resolve next config).location = some location ∧
    ((Router.resolve next config).status = .ready →
      (Router.resolve next config).diskPath = location.root ++ ascii "/") := by
  have own : location.path = next.path := by
    rw [path]
    simpa using List.find?_some found
  have chosen : matchLocation config next.path = some location := by
    rw [path]
    exact matchLocation_own found
  refine ⟨?_, ?_, fun ready => ?_⟩
  · rw [Router.resolve_ready_iff, chosen, selectedMethods, configuredRedirect]
  · rw [Router.resolve_location, chosen]
  · rw [Router.resolve_diskPath ready, chosen, selectedRoot, relativePath_eq, locationPath, own,
      List.drop_length]
    · rfl
    · rw [locationPath, own]

/-! ## The directory -/

theorem FileSystem.resolveExisting_congr {disk : Disk} {root first second : Bytes}
    (same : first.takeWhile (· != 0) = second.takeWhile (· != 0)) :
    resolveExisting disk root first = resolveExisting disk root second := by
  unfold resolveExisting canonicalPath
  rw [Disk.lstat_congr same, Disk.realpath_congr same]

theorem FileSystem.resolveExisting_slash {disk : Disk} {root path directory : Bytes}
    {access : Access} (resolved : resolveExisting disk root path = .ok directory)
    (isDirectory : disk.stat directory = .ok (.directory access))
    (short : ((path ++ ascii "/").takeWhile (· != 0)).length < FileTree.maxPath) :
    resolveExisting disk root (path ++ ascii "/") = .ok directory := by
  rcases resolveExisting_ok resolved with
    ⟨canonicalRoot, node, rootFound, asked, plain, real, inside⟩
  rcases Disk.realpath_ok real with ⟨found, entry, rendered⟩
  have here := Disk.isDirectory_of_stat entry rendered isDirectory
  by_cases ends : 0 ∈ path
  · rw [resolveExisting_congr (FileTree.takeWhile_cut ends _)]
    exact resolved
  · rw [FileTree.takeWhile_slash ends] at short
    rcases Disk.lstat_slash ends short entry here with ⟨access, askedToo⟩
    have realToo := Disk.realpath_slash ends short entry here real
    unfold resolveExisting
    rw [rootFound, askedToo]
    simp only [canonicalPath, realToo, Except.mapError, Except.bind, inside, if_true]

theorem FileSystem.resolveExisting_long {disk : Disk} {root path directory : Bytes}
    (long : FileTree.maxPath ≤ (path.takeWhile (· != 0)).length) :
    resolveExisting disk root path ≠ .ok directory := by
  intro resolved
  rcases resolveExisting_ok resolved with ⟨_, _, _, _, _, real, _⟩
  rcases Disk.realpath_ok real with ⟨found, entry, _⟩
  rw [FileTree.resolve_long long] at entry
  cases entry

/-! ## The static handler -/

namespace StaticHandler

variable {disk : Disk} {route : RouteResult} {config : ServerConfig} {request : Request}

theorem error_status (disk : Disk) (status : Nat) (config : ServerConfig) :
    (ResponseFactory.error disk status config).status = status := rfl

theorem listingResponse_status (disk : Disk) (request : Request) (route : RouteResult)
    (config : ServerConfig) (resolved : Bytes) :
    (listingResponse disk request route config resolved).status ≠ 301 := by
  unfold listingResponse
  split
  · rw [error_status]
    decide
  · split
    · rw [error_status]
      decide
    · exact (by decide : 200 ≠ 301)

/-- A path with a slash at the end is not redirected. -/
theorem chooseIndex_status {resolved : Bytes} {response : Response}
    (slash : request.path.getLast? = some (byte '/'))
    (refused : chooseIndex disk request route config resolved = .error response) :
    response.status ≠ 301 := by
  unfold chooseIndex at refused
  rw [if_neg (not_not_intro slash)] at refused
  dsimp only at refused
  split at refused
  · rw [← Except.error.inj refused, error_status]
    decide
  · rw [← Except.error.inj refused]
    exact listingResponse_status disk request route config resolved
  · cases refused

theorem chooseFile_status {response : Response} (slash : request.path.getLast? = some (byte '/'))
    (refused : chooseFile disk request route config = .error response) :
    response.status ≠ 301 := by
  have forbidden : (ResponseFactory.error disk 403 config).status ≠ 301 := by
    rw [error_status]
    decide
  unfold chooseFile at refused
  dsimp only at refused
  split at refused
  · rw [← Except.error.inj refused, error_status]
    decide
  · exact Except.error.inj refused ▸ forbidden
  next resolved _ =>
    split at refused
    · cases chosen : chooseIndex disk request route config resolved with
      | error early =>
          rw [chosen, Except.bind, Except.error.injEq] at refused
          exact refused ▸ chooseIndex_status slash chosen
      | ok index =>
          rw [chosen] at refused
          simp only [Except.bind] at refused
          split at refused
          · cases refused
          · exact Except.error.inj refused ▸ forbidden
    · cases refused
    · exact Except.error.inj refused ▸ forbidden

theorem handle_status (slash : request.path.getLast? = some (byte '/')) :
    (handle disk request route config).status ≠ 301 := by
  unfold handle
  split
  next response refused => exact chooseFile_status slash refused
  · split
    · rw [error_status]
      decide
    · rw [error_status]
      decide
    · exact (by decide : 200 ≠ 301)

theorem handle_directory {directory : Bytes} {access : Access}
    (resolved : FileSystem.resolveExisting disk (selectedRoot config route.location)
      route.diskPath = .ok directory)
    (isDirectory : disk.stat directory = .ok (.directory access))
    (noSlash : request.path.getLast? ≠ some (byte '/')) :
    handle disk request route config = directoryRedirect request := by
  have refused : chooseFile disk request route config = .error (directoryRedirect request) := by
    rw [chooseFile, resolved]
    simp only [isDirectory]
    rw [chooseIndex, if_pos noSlash]
    rfl
  rw [handle, refused]

end StaticHandler

/-! ## The target of the redirect -/

theorem validToken_of_accepted {raw : Bytes} {maxBody : Nat} {request : Request}
    (accepted : parseRequest raw maxBody = .ok request) : validToken request.method = true := by
  rcases parseRequest_cases accepted with ⟨headerEnd, parsed, _, head, body⟩
  rcases parseBody_cases body with ⟨bytes, rfl, _⟩
  exact (headRead_of_parseHead head).method

theorem Literal.apart {path : Bytes} (literal : Literal path) :
    byte '%' ∉ path ∧ byte '?' ∉ path ∧ byte '\\' ∉ path ∧ byte ' ' ∉ path :=
  ⟨literal _ (by decide), literal _ (by decide), literal _ (by decide), literal _ (by decide)⟩

section Targets

variable {path query : Bytes}

/-- The query as it stands in a target. -/
def queryText (query : Bytes) : Bytes := if query.isEmpty then [] else ascii "?" ++ query

theorem head?_queryText {c : UInt8} (first : (queryText query).head? = some c) : c = byte '?' := by
  unfold queryText at first
  split at first
  · cases first
  · exact (Option.some.inj first).symm

theorem encodedPath_queryText (free : byte '?' ∉ path) :
    encodedPath (path ++ queryText query) = path := by
  have inside : ∀ c ∈ path, (c != byte '?') = true := by
    intro c listed
    rw [bne_iff_ne]
    rintro rfl
    exact free listed
  rw [encodedPath, List.takeWhile_append_of_pos inside]
  cases behind : queryText query with
  | nil => rw [List.takeWhile_nil, List.append_nil]
  | cons c rest =>
      have mark : c = byte '?' := head?_queryText (by rw [behind]; rfl)
      rw [mark, List.takeWhile_cons_of_neg (by decide), List.append_nil]

theorem query_queryText (free : byte '?' ∉ path) :
    ((path ++ queryText query).dropWhile (· != byte '?')).drop 1 = query := by
  have inside : ∀ c ∈ path, (c != byte '?') = true := by
    intro c listed
    rw [bne_iff_ne]
    rintro rfl
    exact free listed
  rw [List.dropWhile_append_of_pos inside, queryText]
  split
  next empty => rw [List.isEmpty_iff.mp empty, List.dropWhile_nil, List.drop_nil]
  · rfl

/-- A path that is read back from a target as it stands there means itself. -/
theorem literal_of_decoded (begins : path.head? = some (byte '/'))
    (decoded : decodePath (encodedPath
      ((path ++ queryText query).takeWhile fun c => !isStreamSpace c)) = some path) :
    Literal path := by
  rcases List.head?_eq_some_iff.mp begins with ⟨others, rooted⟩
  generalize taken : encodedPath ((path ++ queryText query).takeWhile fun c => !isStreamSpace c) =
    encoded at decoded
  have starts : encoded <+: path ++ queryText query := by
    rw [← taken]
    exact (List.takeWhile_prefix _).trans (List.takeWhile_prefix _)
  have kept (c : UInt8) (listed : c ∈ encoded) : isStreamSpace c = false ∧ c ≠ byte '?' := by
    rw [← taken] at listed
    have noMark := List.mem_takeWhile_imp listed
    have visible := List.mem_takeWhile_imp ((List.takeWhile_prefix _).subset listed)
    exact ⟨by simpa using visible, by simpa using noMark⟩
  have first : encoded.head? = some (byte '/') := by
    rw [← taken, rooted, List.cons_append, List.takeWhile_cons_of_pos (by decide), encodedPath,
      List.takeWhile_cons_of_pos (by decide), List.head?_cons]
  rcases length_decodePath first decoded with ⟨shorter, same⟩
  have inside : path <+: encoded :=
    List.prefix_of_prefix_length_le (List.prefix_append _ _) starts shorter
  -- what is read of the target beyond the path would begin with the mark of the query
  have whole : encoded = path := by
    rcases inside with ⟨more, rfl⟩
    rw [List.prefix_append_right_inj] at starts
    cases more with
    | nil => rw [List.append_nil]
    | cons c more =>
        rcases starts with ⟨rest, behind⟩
        have mark : c = byte '?' := head?_queryText (by rw [← behind]; rfl)
        exact absurd mark (kept c (by simp)).2
  rw [whole] at kept same
  intro c known listed
  have cases : c = byte '%' ∨ c = byte '?' ∨ c = byte '\\' ∨ c = byte ' ' := by
    simpa [ascii] using known
  rcases cases with rfl | rfl | rfl | rfl
  · exact (same rfl).1 listed
  · exact (kept _ listed).2 rfl
  · exact (same rfl).2 listed
  · exact absurd (kept _ listed).1 (by decide)

end Targets

/-! ## The redirect is followed -/

theorem directoryRedirect_location (request : Request) :
    (StaticHandler.directoryRedirect request).headers[ascii "Location"]? =
      some (request.path ++ ascii "/" ++ queryText request.query) := by
  rw [StaticHandler.directoryRedirect, ExtTreeMap.getElem?_insert_self, queryText]

theorem literal_slash : Literal (ascii "/") := by decide +kernel

theorem Literal.append {first second : Bytes} (front : Literal first) (back : Literal second) :
    Literal (first ++ second) := fun c known listed =>
  (List.mem_append.mp listed).elim (front c known) (back c known)

/-- A slash can be added to a path that has none at its end. -/
theorem confined_slash {rest : Bytes} (confined : Confined rest)
    (noSlash : (byte '/' :: rest).getLast? ≠ some (byte '/')) : Confined (rest ++ ascii "/") := by
  constructor
  · intro segment listed
    rw [splitOn_slash, List.mem_append, List.mem_singleton] at listed
    rcases listed with inside | rfl
    · exact confined.no_dots segment inside
    · decide
  · intro segment listed
    rw [splitOn_slash, List.dropLast_concat] at listed
    rintro rfl
    obtain ⟨front, last, pieces⟩ := List.eq_nil_or_concat' (rest.splitOn (byte '/'))
      |>.resolve_left (List.splitOn_ne_nil _ _)
    have joined : [byte '/'].intercalate (rest.splitOn (byte '/')) = rest :=
      List.intercalate_splitOn (byte '/')
    have noGaps := confined.no_gaps
    rw [pieces, List.dropLast_concat] at noGaps
    rw [pieces, List.mem_append, List.mem_singleton] at listed
    rcases listed with inside | rfl
    · exact noGaps [] inside rfl
    · apply noSlash
      rw [← joined, pieces]
      cases front with
      | nil => rfl
      | cons first others =>
          rw [intercalate_concat _ _ (List.cons_ne_nil _ _), ← List.cons_append,
            List.getLast?_concat]
  · intro c listed
    rcases List.mem_append.mp listed with inside | slash
    · exact confined.no_controls c inside
    · rw [List.mem_singleton.mp slash]
      decide

/-- A path without white space. -/
theorem visible_path {rest : Bytes} (confined : Confined rest)
    (literal : Literal (byte '/' :: rest)) :
    ∀ c ∈ byte '/' :: rest, isStreamSpace c = false := by
  have control (c : UInt8) : isStreamSpace c = true → c ≠ byte ' ' → isControl c = true := by
    revert c
    apply forall_byte
    decide +kernel
  intro c listed
  rw [Bool.eq_false_iff]
  intro space
  have noSpace : c ≠ byte ' ' := by
    rintro rfl
    exact literal.apart.2.2.2 listed
  rcases List.mem_cons.mp listed with rfl | inside
  · exact absurd space (by decide)
  · have here := control c space noSpace
    rw [confined.no_controls c inside] at here
    cases here

section Followed

variable {disk : Disk} {config : ServerConfig} {raw directory target host : Bytes}
  {maxBody : Nat} {request : Request}

theorem Redirected.noSlash
    (redirected : Redirected disk config raw maxBody request directory target) :
    request.path.getLast? ≠ some (byte '/') :=
  fun slash => StaticHandler.handle_status slash redirected.moved

theorem Redirected.target_eq
    (redirected : Redirected disk config raw maxBody request directory target) :
    target = request.path ++ ascii "/" ++ queryText request.query := by
  rcases redirected.isDirectory with ⟨access, isDirectory⟩
  have location := redirected.location
  rw [StaticHandler.handle_directory redirected.resolved isDirectory redirected.noSlash,
    directoryRedirect_location] at location
  exact (Option.some.inj location).symm

/-- Every request that the target makes has a path that means itself. -/
theorem Redirected.next_facts
    (redirected : Redirected disk config raw maxBody request directory target)
    (plain : InLine host) {next : Request} {limit : Nat}
    (accepted : parseRequest (requestFor request.method target host) limit = .ok next)
    (path : next.path = request.path ++ ascii "/") :
    next.method = request.method ∧ Literal request.path := by
  rcases parseRequest_path redirected.accepted with ⟨rest, rooted, _⟩
  have begins : (request.path ++ ascii "/").head? = some (byte '/') := by
    rw [rooted]
    rfl
  have spelled := redirected.target_eq
  have firstTarget : target.head? = some (byte '/') := by
    rw [spelled, rooted]
    rfl
  have inLine : InLine target := by
    have own := plain_of_parseRequest redirected.accepted
    have query : InLine (queryText request.query) := by
      unfold queryText
      split
      · decide
      · exact InLine.append (by decide) own.query
    rw [spelled]
    exact (InLine.append own.path (by decide)).append query
  rcases target_of_accepted (validToken_of_accepted redirected.accepted) firstTarget inLine plain
    accepted with ⟨method, taken, decoded⟩
  rw [taken, spelled, path] at decoded
  have literal := literal_of_decoded begins decoded
  exact ⟨method, fun c known listed => literal c known (List.mem_append_left _ listed)⟩

/-- A path that means itself is read back from the redirect. -/
theorem Redirected.next_accepted
    (redirected : Redirected disk config raw maxBody request directory target)
    (plain : InLine host) (literal : Literal request.path) (limit : Nat) :
    ∃ next, parseRequest (requestFor request.method target host) limit = .ok next ∧
      next.method = request.method ∧ next.path = request.path ++ ascii "/" ∧
      next.query = request.query := by
  rcases parseRequest_path redirected.accepted with ⟨rest, rooted, confined⟩
  have noSlash := redirected.noSlash
  have whole := literal.append literal_slash
  have spelled := redirected.target_eq
  rw [rooted] at noSlash
  have visible : ∀ c ∈ target, isStreamSpace c = false := by
    have own := visible_path (confined_slash confined noSlash) (by rwa [rooted] at whole)
    rw [spelled, rooted]
    intro c listed
    rcases List.mem_append.mp listed with inPath | inQuery
    · exact own c inPath
    · unfold queryText at inQuery
      split at inQuery
      · cases inQuery
      · rcases List.mem_append.mp inQuery with mark | inside
        · rw [List.mem_singleton.mp mark]
          decide
        · exact visible_query redirected.accepted c inside
  have decoded : decodePath (encodedPath target) = some (request.path ++ ascii "/") := by
    rw [spelled, encodedPath_queryText whole.apart.2.1, rooted]
    rw [rooted] at whole
    exact decodePath_eq_self (confined_slash confined noSlash) whole.apart.1 whole.apart.2.2.1
  have begins : target.head? = some (byte '/') := by
    rw [spelled, rooted]
    rfl
  refine ⟨_, parseRequest_requestFor (validToken_of_accepted redirected.accepted)
    redirected.handled.2 begins visible plain decoded limit, rfl, rfl, ?_⟩
  dsimp only
  rw [spelled, query_queryText whole.apart.2.1]

/-- A redirect of a directory can be followed exactly where its path means itself and the slash
at the end is of no account. -/
theorem followed_iff
    (redirected : Redirected disk config raw maxBody request directory target)
    (plain : InLine host) (limit : Nat) :
    Followed disk config request directory target host limit ↔
      Reachable disk config request directory := by
  constructor
  · rintro ⟨next, accepted, arrives⟩
    rcases redirected.next_facts plain accepted arrives.path with ⟨method, literal⟩
    have found := arrives.sameDirectory
    refine ⟨literal, ?_, ?_⟩
    · intro location own
      rcases route_own own arrives.path with ⟨ready, chosen, diskPath⟩
      have allowed := ready.mp arrives.ready
      rw [chosen, diskPath arrives.ready] at found
      exact ⟨method ▸ allowed.1, allowed.2, found⟩
    · intro missing
      rcases route_slash redirected.ready missing method arrives.path with ⟨_, _, diskPath⟩
      rw [or_iff_not_imp_left]
      intro below
      rw [diskPath, if_neg below] at found
      rw [← Nat.not_le]
      exact fun long => FileSystem.resolveExisting_long long found
  · intro reachable
    rcases redirected.next_accepted plain reachable.literal limit with
      ⟨next, accepted, method, path, query⟩
    have settled : (StaticHandler.handle disk next (Router.resolve next config) config).status ≠
        301 := by
      refine StaticHandler.handle_status ?_
      rw [path]
      exact List.getLast?_concat
    cases own : slashLocation config request with
    | some location =>
        rcases reachable.named location own with ⟨allowed, stays, found⟩
        rcases route_own own path with ⟨ready, chosen, diskPath⟩
        have readyNext := ready.mpr ⟨method.symm ▸ allowed, stays⟩
        refine ⟨next, accepted, path, query, readyNext, ?_, settled⟩
        rw [chosen, diskPath readyNext]
        exact found
    | none =>
        rcases route_slash redirected.ready own method path with ⟨readyNext, chosen, diskPath⟩
        refine ⟨next, accepted, path, query, readyNext, ?_, settled⟩
        rw [chosen, diskPath]
        split
        · exact redirected.resolved
        next below =>
          rcases redirected.isDirectory with ⟨access, isDirectory⟩
          exact FileSystem.resolveExisting_slash redirected.resolved isDirectory
            ((reachable.unnamed own).resolve_left below)

end Followed

/-- The default root with two directories in it. -/
def libraryDisk : Disk where
  tree := (((FileTree.empty {}).put [] (ascii "www") (.directory {})).put [ascii "www"]
    (ascii "docs") (.directory {})).put [ascii "www"] (ascii "a b") (.directory {})
  directory := []

def docsRequest : Request where
  method := ascii "GET"
  target := ascii "/docs?page=2"
  path := ascii "/docs"
  query := ascii "page=2"
  version := ascii "HTTP/1.1"
  headers := (∅ : ExtTreeMap Bytes Bytes).insert (ascii "host") (ascii "a")

theorem followed_iff_docs :
    Followed libraryDisk {} docsRequest (ascii "/www/docs") (ascii "/docs/?page=2") (ascii "a")
      0 := by
  have redirected : Redirected libraryDisk {}
      (ascii "GET /docs?page=2 HTTP/1.1\r\nHost: a\r\n\r\n") 0 docsRequest (ascii "/www/docs")
      (ascii "/docs/?page=2") :=
    ⟨by decide +kernel, by decide +kernel, by decide +kernel, by decide +kernel,
      ⟨{}, by decide +kernel⟩, by decide +kernel, by decide +kernel⟩
  have literal : Literal docsRequest.path := by decide +kernel
  have missing : slashLocation {} docsRequest = none := rfl
  have reachable : Reachable libraryDisk {} docsRequest (ascii "/www/docs") := by
    refine ⟨literal, fun location own => ?_, fun _ => Or.inr (by decide +kernel)⟩
    rw [missing] at own
    cases own
  exact (followed_iff redirected (by decide) 0).mpr reachable

def spacedRequest : Request where
  method := ascii "GET"
  target := ascii "/a%20b"
  path := ascii "/a b"
  version := ascii "HTTP/1.1"
  headers := (∅ : ExtTreeMap Bytes Bytes).insert (ascii "host") (ascii "a")

/-- The redirect to a directory with a space in its name is refused when it is followed. -/
theorem followed_fails_spaced :
    Redirected libraryDisk {} (ascii "GET /a%20b HTTP/1.1\r\nHost: a\r\n\r\n") 0 spacedRequest
      (ascii "/www/a b") (ascii "/a b/") ∧
    ¬Followed libraryDisk {} spacedRequest (ascii "/www/a b") (ascii "/a b/") (ascii "a") 0 := by
  refine ⟨⟨by decide +kernel, by decide +kernel, by decide +kernel, by decide +kernel,
    ⟨{}, by decide +kernel⟩, by decide +kernel, by decide +kernel⟩, ?_⟩
  rintro ⟨next, accepted, _⟩
  have refused : parseRequest (requestFor spacedRequest.method (ascii "/a b/") (ascii "a")) 0 =
      .bad := by decide +kernel
  rw [refused] at accepted
  cases accepted

end IrcPlatform.Webserv
