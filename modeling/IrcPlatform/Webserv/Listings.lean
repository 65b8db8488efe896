import IrcPlatform.Library.Markup
import IrcPlatform.Webserv.DirectoryRedirects
import IrcPlatform.Webserv.MergedPaths

/-!
# Listings of directories

The links of a listing are the names of the entries, escaped for the markup and for nothing else.
A link leads to its entry where the name means itself in a reference and in a target, and where
the path of the listing ends with the last slash of its URL.
-/

namespace IrcPlatform.Webserv

open Std Markup Reference

/-! ## Escaped text -/

namespace StaticHandler

theorem mark_not_mem_escapeHtml (text : Bytes) :
    byte '<' ∉ escapeHtml text ∧ byte '"' ∉ escapeHtml text := by
  have free (c : UInt8) : byte '<' ∉ escapeCharacter c ∧ byte '"' ∉ escapeCharacter c := by
    revert c
    apply forall_byte
    decide +kernel
  constructor
  · intro listed
    rcases List.mem_flatMap.mp listed with ⟨c, _, inside⟩
    exact (free c).1 inside
  · intro listed
    rcases List.mem_flatMap.mp listed with ⟨c, _, inside⟩
    exact (free c).2 inside

theorem unescapeFrom_plain {c : UInt8} (plain : c ≠ byte '&') (rest : Bytes) :
    unescapeFrom 0 (c :: rest) = c :: unescapeFrom 0 rest := by
  have marked : ∀ reference ∈ characterReferences, reference.1.head? = some (byte '&') := by
    simp only [characterReferences, List.forall_mem_cons]
    exact ⟨rfl, rfl, rfl, rfl, List.forall_mem_nil _⟩
  have unread : characterReferences.find?
      (fun reference => reference.1.isPrefixOf (c :: rest)) = none := by
    rw [List.find?_eq_none]
    intro reference listed starts
    rcases List.head?_eq_some_iff.mp (marked reference listed) with ⟨more, text⟩
    rw [text, List.isPrefixOf_iff_prefix, List.cons_prefix_cons] at starts
    exact plain starts.1.symm
  rw [unescapeFrom, unread]

/-- A character is read back from its reference, whatever follows. -/
theorem unescapeFrom_escapeCharacter (c : UInt8) (rest : Bytes) :
    unescapeFrom 0 (escapeCharacter c ++ rest) = c :: unescapeFrom 0 rest := by
  unfold escapeCharacter
  split
  next mark => exact mark ▸ rfl
  split
  next mark => exact mark ▸ rfl
  split
  next mark => exact mark ▸ rfl
  split
  next mark => exact mark ▸ rfl
  · exact unescapeFrom_plain ‹_› rest

theorem unescape_escapeHtml (text : Bytes) : unescapeHtml (escapeHtml text) = text := by
  induction text with
  | nil => rfl
  | cons c rest ih =>
      rw [unescapeHtml, escapeHtml, List.flatMap_cons, unescapeFrom_escapeCharacter]
      exact congrArg (c :: ·) ih

/-! ## The links of a listing -/

/-- The item of an entry. -/
def listItem (name : Bytes) : Bytes :=
  ascii "<li>" ++ (linkStart ++ escapeHtml name ++ ascii "\">" ++ escapeHtml name ++
    ascii "</a>") ++ ascii "</li>"

theorem listEntries_eq {names : List Bytes} {body page : Bytes}
    (listed : listEntries names body = some page) :
    page = body ++ (names.filter (· ≠ ascii ".")).flatMap listItem := by
  induction names generalizing body with
  | nil => simpa [listEntries] using listed.symm
  | cons name names ih =>
      rw [listEntries] at listed
      split at listed
      next own => rw [ih listed, List.filter_cons_of_neg (by simpa using own)]
      next other =>
        dsimp only at listed
        split at listed
        · cases listed
        · have item : ascii "<li><a href=\"" = ascii "<li>" ++ linkStart := rfl
          have ended : ascii "</a></li>" = ascii "</a>" ++ ascii "</li>" := rfl
          rw [ih listed, List.filter_cons_of_pos (by simpa using other), List.flatMap_cons,
            listItem, item, ended]
          simp only [List.append_assoc]

/-- The link of an entry. -/
def entryLink (name : Bytes) : Link := { href := escapeHtml name, text := escapeHtml name }

theorem links_listItem (name back : Bytes) :
    links (listItem name ++ back) = entryLink name :: links back := by
  rcases mark_not_mem_escapeHtml name with ⟨plain, quoted⟩
  rw [listItem, List.append_assoc, List.append_assoc, links_linkless rfl,
    links_link quoted plain plain, links_linkless rfl]
  rfl

theorem links_items (names : List Bytes) (back : Bytes) :
    links (names.flatMap listItem ++ back) = names.map entryLink ++ links back := by
  induction names with
  | nil => rfl
  | cons name names ih =>
      rw [List.flatMap_cons, List.append_assoc, links_listItem, ih, List.map_cons, List.cons_append]

/-- A listing links every entry once, in the order of the directory. -/
theorem links_directoryListing {disk : Disk} {resolved uri page : Bytes} {directory : Path}
    {access : Access} (opened : disk.openDirectory true resolved = .ok (directory, access))
    (listed : directoryListing disk resolved uri = some page) :
    links page = ((disk.entries directory).filter (· ≠ ascii ".")).map entryLink := by
  rw [directoryListing, opened] at listed
  rcases Option.map_eq_some_iff.mp listed with ⟨body, items, rfl⟩
  have title : linkless (ascii "<!doctype html><html><body><h1>Index of " ++ escapeHtml uri ++
      ascii "</h1><ul>") = true :=
    linkless_append (linkless_append rfl (linkless_of_plain (mark_not_mem_escapeHtml uri).1)) rfl
  have ended : links (ascii "</ul></body></html>" ++ []) = [] := links_linkless rfl []
  rw [List.append_nil] at ended
  rw [listEntries_eq items, List.append_assoc, links_linkless title, links_items, ended,
    List.append_nil]

end StaticHandler

/-! ## What a listing promises -/

/-- The handler chooses no file and answers with success: it has listed a directory. -/
structure Listed (disk : Disk) (config : ServerConfig) (raw : Bytes) (maxBody : Nat)
    (request : Request) (directory : Path) (page : Bytes) : Prop where
  accepted : parseRequest raw maxBody = .ok request
  opened : ∃ resolved access, FileSystem.resolveExisting disk
      (selectedRoot config (Router.resolve request config).location)
      (Router.resolve request config).diskPath = .ok resolved ∧
    disk.openDirectory true resolved = .ok (directory, access)
  noFile : ∃ response, StaticHandler.chooseFile disk request (Router.resolve request config)
    config = .error response
  success : (StaticHandler.handle disk request (Router.resolve request config) config).status = 200
  body : (StaticHandler.handle disk request (Router.resolve request config) config).body = page

/-- A reference on a page leads to a path of the same server. -/
def LeadsTo (base : Reference) (reference host path : Bytes) (limit : Nat) : Prop :=
  (base.resolve (parse reference)).scheme = base.scheme ∧
    (base.resolve (parse reference)).authority = base.authority ∧
    ∃ next, parseRequest
        (requestFor (ascii "GET") (base.resolve (parse reference)).target host) limit = .ok next ∧
      next.path = path

/-- A page has one link with this name, and it leads to the path. -/
def Linked (page : Bytes) (base : Reference) (host name path : Bytes) (limit : Nat) : Prop :=
  ∃ link, (links page).filter (fun link => unescapeHtml link.text = name) = [link] ∧
    LeadsTo base (unescapeHtml link.href) host path limit

/-- The name means itself in a reference and in a target. -/
structure PlainName (name : Bytes) : Prop where
  unmarked : ∀ c ∈ ascii "%?#\\ ", c ∉ name
  noScheme : byte ':' ∈ name → name.head? = some (byte ':')

/-- What the path of a target has behind the last slash of its URL. -/
def pathEnd (target : Bytes) : Bytes :=
  (encodedPath target).drop (directoryOf (targetPath target)).length

/-! ## The page of a listing -/

/-- The only success without a file is a listing. -/
theorem StaticHandler.listing_of_success {disk : Disk} {request : Request} {route : RouteResult}
    {config : ServerConfig} {response : Response}
    (refused : chooseFile disk request route config = .error response)
    (success : response.status = 200) :
    request.path.getLast? = some (byte '/') ∧ ∃ resolved,
      FileSystem.resolveExisting disk (selectedRoot config route.location) route.diskPath =
        .ok resolved ∧
      directoryListing disk resolved request.path = some response.body := by
  have failed {status : Nat} (other : status ≠ 200)
      (same : ResponseFactory.error disk status config = response) : False := by
    rw [← same, error_status] at success
    exact other success
  unfold chooseFile at refused
  dsimp only at refused
  split at refused
  · exact (failed (by decide) (Except.error.inj refused)).elim
  · exact (failed (by decide) (Except.error.inj refused)).elim
  next resolved found =>
    split at refused
    · cases chosen : chooseIndex disk request route config resolved with
      | ok index =>
          rw [chosen] at refused
          simp only [Except.bind] at refused
          split at refused
          · cases refused
          · exact (failed (by decide) (Except.error.inj refused)).elim
      | error early =>
          rw [chosen, Except.bind, Except.error.injEq] at refused
          rw [chooseIndex] at chosen
          split at chosen
          · rw [← refused, ← Except.error.inj chosen] at success
            cases success
          next slash =>
            refine ⟨not_not.mp slash, resolved, found, ?_⟩
            dsimp only at chosen
            split at chosen
            · exact (failed (by decide) ((Except.error.inj chosen).trans refused)).elim
            · have listing := (Except.error.inj chosen).trans refused
              unfold listingResponse at listing
              split at listing
              · exact (failed (by decide) listing).elim
              split at listing
              · exact (failed (by decide) listing).elim
              next body listed => rw [listed, ← listing]
            · cases chosen
    · cases refused
    · exact (failed (by decide) (Except.error.inj refused)).elim

section Page

variable {disk : Disk} {config : ServerConfig} {raw : Bytes} {maxBody limit : Nat}
  {request : Request} {directory : Path} {page name : Bytes}

theorem Listed.listing (listed : Listed disk config raw maxBody request directory page) :
    request.path.getLast? = some (byte '/') ∧
      links page = ((disk.entries directory).filter (· ≠ ascii ".")).map
        StaticHandler.entryLink := by
  rcases listed.noFile with ⟨response, refused⟩
  have answered : StaticHandler.handle disk request (Router.resolve request config) config =
      response := by rw [StaticHandler.handle, refused]
  have success := listed.success
  have body := listed.body
  rw [answered] at success body
  rcases StaticHandler.listing_of_success refused success with ⟨slash, resolved, found, listing⟩
  rcases listed.opened with ⟨_, access, again, opened⟩
  rw [Except.ok.inj (again.symm.trans found)] at opened
  rw [body] at listing
  exact ⟨slash, StaticHandler.links_directoryListing opened listing⟩

/-- Every entry has one link, whose reference means its name. -/
theorem Listed.linked_leadsTo (listed : Listed disk config raw maxBody request directory page)
    (entry : name ∈ disk.entries directory) (other : name ≠ ascii ".") (base : Reference)
    (host path : Bytes) :
    Linked page base host name path limit ↔ LeadsTo base name host path limit := by
  have own : (links page).filter (fun link => unescapeHtml link.text = name) =
      [StaticHandler.entryLink name] := by
    have named : (fun link : Link => decide (unescapeHtml link.text = name)) ∘
        StaticHandler.entryLink = fun entry => decide (entry = name) := by
      funext entry
      have meaning := StaticHandler.unescape_escapeHtml entry
      rw [Function.comp_apply, StaticHandler.entryLink, meaning]
    have once : ((disk.entries directory).filter (· ≠ ascii ".")).count name = 1 := by
      refine List.count_eq_one_of_mem ((Disk.nodup_entries directory).filter _) ?_
      exact List.mem_filter.mpr ⟨entry, decide_eq_true other⟩
    rw [listed.listing.2, List.filter_map, named, List.filter_eq, once]
    rfl
  rw [Linked, own]
  constructor
  · rintro ⟨link, same, leads⟩
    rw [← List.singleton_inj.mp same] at leads
    rwa [StaticHandler.entryLink, StaticHandler.unescape_escapeHtml] at leads
  · intro leads
    refine ⟨_, rfl, ?_⟩
    rwa [StaticHandler.entryLink, StaticHandler.unescape_escapeHtml]

end Page

/-! ## The path of the next request -/

/-- A character that stays in the path of a target. -/
def staysInPath (c : UInt8) : Bool := !isStreamSpace c && c != byte '?'

theorem staysInPath_iff {c : UInt8} :
    staysInPath c = true ↔ isStreamSpace c = false ∧ c ≠ byte '?' := by
  rw [staysInPath, Bool.and_eq_true, Bool.not_eq_true', bne_iff_ne]

theorem takeWhile_marked {test : UInt8 → Bool} {rest : Bytes}
    (marked : ∀ c, rest.head? = some c → test c = false) (front : Bytes) :
    (front ++ rest).takeWhile test = front.takeWhile test := by
  rw [List.takeWhile_append]
  split
  next whole =>
    have empty : rest.takeWhile test = [] := by
      cases rest with
      | nil => rfl
      | cons c others => exact List.takeWhile_cons_of_neg (by simp [marked c rfl])
    have same := (List.takeWhile_prefix (l := front) test).eq_of_length whole
    rw [empty, List.append_nil, same]
  · rfl

section Next

variable {host front name rest : Bytes} {limit : Nat} {next : Request}

/-- A request is for what is read of its target. -/
theorem decodePath_of_next (begins : front.head? = some (byte '/'))
    (plainFront : ∀ c ∈ front, staysInPath c = true) (plainName : InLine name)
    (plainRest : InLine rest) (marked : ∀ c, rest.head? = some c → c = byte '?')
    (plain : InLine host)
    (accepted : parseRequest (requestFor (ascii "GET") (front ++ name ++ rest) host) limit =
      .ok next) :
    decodePath (front ++ name.takeWhile staysInPath) = some next.path := by
  have visible : ∀ c ∈ front, isStreamSpace c = false := fun c listed =>
    (staysInPath_iff.mp (plainFront c listed)).1
  have beginsTarget : (front ++ name ++ rest).head? = some (byte '/') := by
    rcases List.head?_eq_some_iff.mp begins with ⟨others, rfl⟩
    rfl
  have spelled := target_of_accepted (by decide) beginsTarget
    (((inLine_of_visible visible).append plainName).append plainRest) plain accepted
  have taken : encodedPath next.target = front ++ name.takeWhile staysInPath := by
    have both : encodedPath ((front ++ name ++ rest).takeWhile fun c => !isStreamSpace c) =
        (front ++ name ++ rest).takeWhile staysInPath := by
      rw [encodedPath, List.takeWhile_takeWhile]
      congr 1
      funext c
      rw [Bool.eq_iff_iff]
      simp [staysInPath, and_comm]
    rw [spelled.2.1, both, takeWhile_marked, List.takeWhile_append_of_pos plainFront]
    intro c first
    rw [marked c first]
    rfl
  rw [← taken]
  exact spelled.2.2

end Next

/-! ## The directory of a listing -/

/-- The URL of a listing: the segments of its directory, and the names of its path. -/
structure Directory (target path : Bytes) (segments names behind : List Bytes) : Prop where
  slashless : ∀ segment ∈ segments, byte '/' ∉ segment
  directory : directoryOf (targetPath target) = byte '/' :: slashedText segments
  plain : ∀ c ∈ byte '/' :: slashedText segments, staysInPath c = true
  found : namesOf segments = some names
  ending : keptNames (pathEnd target) = some behind
  whole : keptNames (encodedPath target).tail = some (names ++ behind)
  path : path = byte '/' :: slashedText (names ++ behind)
  good : ∀ name ∈ names ++ behind, Segment name

theorem targetPath_starts (target : Bytes) : targetPath target <+: encodedPath target := by
  have stricter : targetPath target = (encodedPath target).takeWhile (avoids "?#") := by
    rw [encodedPath, List.takeWhile_takeWhile, targetPath]
    congr 1
    funext c
    have mark : avoids "?#" c = true → c ≠ byte '?' := by
      intro plain same
      rw [same] at plain
      exact absurd plain (by decide)
    rw [Bool.eq_iff_iff]
    simpa using mark
  rw [stricter]
  exact List.takeWhile_prefix _

theorem exists_directory {target path : Bytes} (begins : target.head? = some (byte '/'))
    (visible : ∀ c ∈ target, isStreamSpace c = false)
    (decoded : decodePath (encodedPath target) = some path)
    (slash : path.getLast? = some (byte '/')) :
    ∃ segments names behind, Directory target path segments names behind := by
  rcases List.head?_eq_some_iff.mp begins with ⟨others, rfl⟩
  have rooted : targetPath (byte '/' :: others) =
      byte '/' :: others.takeWhile (avoids "?#") := List.takeWhile_cons_of_pos (by decide)
  rcases exists_slashedText (others.takeWhile (avoids "?#")) with
    ⟨segments, last, text, slashless, lastSlashless⟩
  have directory : directoryOf (targetPath (byte '/' :: others)) =
      byte '/' :: slashedText segments := by
    rw [rooted, text, directoryOf_slashedText segments lastSlashless]
  have starts : byte '/' :: slashedText segments <+: encodedPath (byte '/' :: others) := by
    refine List.IsPrefix.trans ?_ (targetPath_starts _)
    rw [rooted, text, ← List.cons_append]
    exact List.prefix_append _ _
  have parts : encodedPath (byte '/' :: others) =
      byte '/' :: (slashedText segments ++ pathEnd (byte '/' :: others)) := by
    rw [pathEnd, directory, ← List.cons_append]
    exact (List.prefix_iff_eq_append.mp starts).symm
  rw [parts] at decoded
  have whole := keptNames_of_decodePath decoded
  have good := (keptNames_good whole).choose_spec.2.2.2
  rw [keptNames_slashedText] at whole
  rcases Option.bind_eq_some_iff.mp whole with ⟨names, found, rest⟩
  rcases Option.map_eq_some_iff.mp rest with ⟨behind, ending, both⟩
  rcases decodePath_confined decoded with ⟨below, rfl, confined⟩
  refine ⟨segments, names, behind, slashless, directory, ?_, found, ending, ?_, ?_, both ▸ good⟩
  · intro c listed
    have inPath := starts.subset listed
    refine staysInPath_iff.mpr ⟨visible c ((List.takeWhile_prefix _).subset inPath), ?_⟩
    simpa using List.mem_takeWhile_imp inPath
  · rw [parts, List.tail_cons, keptNames_slashedText, found, Option.bind_some, rest, both]
  · rw [both]
    exact slashedText_pathNames confined slash

section Leads

variable {host target path name : Bytes} {segments names behind : List Bytes} {limit : Nat}

/-- A link that stays at the server is read as the path that it is resolved to. -/
theorem LeadsTo.read (leads : LeadsTo (ofTarget host target) name host path limit)
    (slashless : byte '/' ∉ name) (plainName : InLine name) (plainTarget : InLine target)
    (plain : InLine host) :
    (parse name).scheme = none ∧ ∀ front text,
      (ofTarget host target).resolvedPath (parse name) = front ++ text →
      front.head? = some (byte '/') → (∀ c ∈ front, staysInPath c = true) → InLine text →
      decodePath (front ++ text.takeWhile staysInPath) = some path := by
  rcases leads with ⟨scheme, authority, next, accepted, rfl⟩
  have stays := parse_slashless slashless
  have unnamed : (parse name).scheme = none := by
    by_contra named
    rw [resolve, if_pos (Option.isSome_iff_ne_none.mpr named), stays] at authority
    cases authority
  refine ⟨unnamed, fun front text parts begins plainFront plainText => ?_⟩
  rw [resolve_relative unnamed stays] at accepted
  rcases target_parts { scheme := (ofTarget host target).scheme
                        authority := (ofTarget host target).authority
                        path := (ofTarget host target).resolvedPath (parse name)
                        query := if (parse name).path = [] then
                          (parse name).query <|> (ofTarget host target).query
                          else (parse name).query
                        fragment := (parse name).fragment } with ⟨rest, spelled, marked, inside⟩
  rw [spelled, parts] at accepted
  have known : ∀ c ∈ rest, c = byte '?' ∨ c ∈ name ∨ c ∈ target := by
    intro c listed
    refine (inside c listed).imp_right ?_
    rintro ⟨query, asked, inQuery⟩
    dsimp only at asked
    rw [(parse_relative slashless unnamed).2] at asked
    cases own : (queryPart (name.dropWhile (avoids "?#"))).1 with
    | some query =>
        rw [own] at asked
        refine Or.inl (mem_of_mem_query own c ?_)
        split at asked <;> exact Option.some.inj asked ▸ inQuery
    | none =>
        rw [own] at asked
        split at asked
        · exact Or.inr (mem_of_mem_query asked c inQuery)
        · cases asked
  have plainRest : InLine rest := by
    constructor
    · intro listed
      rcases known _ listed with mark | inName | inTarget
      · cases mark
      · exact plainName.1 inName
      · exact plainTarget.1 inTarget
    · intro listed
      rcases known _ listed with mark | inName | inTarget
      · cases mark
      · exact plainName.2 inName
      · exact plainTarget.2 inTarget
  exact decodePath_of_next begins plainFront plainText plainRest marked plain accepted

/-- Fewer names cannot be those of an entry below the path. -/
theorem Directory.decodePath_ne (directory : Directory target path segments names behind)
    (segment : Segment name) {text : Bytes} {read : List Bytes} (found : keptNames text = some read)
    (fewer : read.length ≤ (names ++ behind).length) :
    decodePath (byte '/' :: text) ≠ some (path ++ name) := by
  intro decoded
  have same := keptNames_of_decodePath decoded
  rw [directory.path, List.cons_append, pathNames_child directory.good segment, found,
    Option.some.injEq] at same
  rw [same, List.length_append, List.length_singleton] at fewer
  exact absurd fewer (Nat.not_succ_le_self _)

/-- The segments of the directory, without those that only stand for it. -/
theorem Directory.plain_filter (directory : Directory target path segments names behind) :
    ∀ c ∈ byte '/' :: slashedText (segments.filter (· ≠ ascii ".")), staysInPath c = true := by
  intro c listed
  rcases List.mem_cons.mp listed with rfl | inside
  · decide
  · exact directory.plain c (List.mem_cons_of_mem _
      (mem_slashedText_of_subset (List.filter_subset_self _) c inside))

theorem Directory.removeDots_eq (directory : Directory target path segments names behind)
    {last : Bytes} (slashless : byte '/' ∉ last) :
    removeDots (directoryOf (targetPath target) ++ last) =
      if last = ascii "." then byte '/' :: slashedText (segments.filter (· ≠ ascii "."))
      else if last = ascii ".." then
        byte '/' :: slashedText (segments.filter (· ≠ ascii ".")).dropLast
      else byte '/' :: (slashedText (segments.filter (· ≠ ascii ".")) ++ last) := by
  rw [directory.directory, List.cons_append,
    removeDots_merged directory.slashless (noUp_of_namesOf directory.found) slashless]

/-- What stands behind the directory is read as the rest of the path, and the entry. -/
theorem Directory.keptNames_last (directory : Directory target path segments names behind)
    (segment : Segment name) {text : Bytes}
    (decoded : decodePath
      (byte '/' :: (slashedText (segments.filter (· ≠ ascii ".")) ++ text)) = some (path ++ name)) :
    keptNames text = some (behind ++ [name]) := by
  have whole := keptNames_of_decodePath decoded
  rw [directory.path, List.cons_append, pathNames_child directory.good segment,
    keptNames_slashedText, namesOf_filter, directory.found, Option.bind_some] at whole
  rcases Option.map_eq_some_iff.mp whole with ⟨read, found, both⟩
  rw [List.append_assoc, List.append_cancel_left_eq] at both
  rw [found, both]

theorem staysInPath_targetPath (visible : ∀ c ∈ target, isStreamSpace c = false) :
    ∀ c ∈ targetPath target, staysInPath c = true := by
  intro c listed
  refine staysInPath_iff.mpr ⟨visible c (List.takeWhile_subset _ listed), ?_⟩
  rintro rfl
  exact avoids_iff.mp (List.mem_takeWhile_imp listed) (by decide)

/-- The directory of a listing does not lead to an entry by its own URL. -/
theorem Directory.decodePath_targetPath
    (directory : Directory target path segments names behind) (segment : Segment name)
    (begins : target.head? = some (byte '/')) :
    decodePath (targetPath target) ≠ some (path ++ name) := by
  rcases List.head?_eq_some_iff.mp begins with ⟨others, rooted⟩
  rcases targetPath_starts target with ⟨more, whole⟩
  have text : targetPath target = byte '/' :: (targetPath target).tail := by
    rw [rooted]
    rfl
  intro decoded
  rw [text] at decoded
  have found := keptNames_of_decodePath decoded
  have longer := directory.whole
  rw [← whole, text, List.cons_append, List.tail_cons] at longer
  exact directory.decodePath_ne segment found (length_keptNames_append found longer) decoded

/-- Nor do the directories that dots lead to. -/
theorem Directory.decodePath_dots
    (directory : Directory target path segments names behind) (segment : Segment name) :
    decodePath (byte '/' :: slashedText (segments.filter (· ≠ ascii "."))) ≠ some (path ++ name) ∧
      decodePath (byte '/' :: slashedText (segments.filter (· ≠ ascii ".")).dropLast) ≠
        some (path ++ name) := by
  have here := namesOf_filter segments
  rw [directory.found] at here
  rcases namesOf_dropLast here with ⟨fewer, found, shorter⟩
  have known : names.length ≤ (names ++ behind).length := by
    rw [List.length_append]
    exact Nat.le_add_right _ _
  constructor
  · exact directory.decodePath_ne segment ((keptNames_directory _).trans here) known
  · exact directory.decodePath_ne segment ((keptNames_directory _).trans found)
      (shorter.trans known)

/-- A text that is read of a name, and as that name, is the name, which means itself. -/
theorem plainName_of_keptNames (slashless : byte '/' ∉ name) (unnamed : (parse name).scheme = none)
    (found : keptNames ((name.takeWhile (avoids "?#")).takeWhile staysInPath) =
      some (behind ++ [name])) : PlainName name ∧ behind = [] := by
  have starts : (name.takeWhile (avoids "?#")).takeWhile staysInPath <+: name :=
    (List.takeWhile_prefix _).trans (List.takeWhile_prefix _)
  rcases keptNames_short found starts.length_le with ⟨alone, length, noEscape, noBackslash⟩
  have whole := starts.eq_of_length length
  have stays (c : UInt8) (listed : c ∈ name) : staysInPath c = true := by
    rw [← whole] at listed
    exact List.mem_takeWhile_imp listed
  have free (c : UInt8) (listed : c ∈ name) : c ∉ ascii "?#" := by
    rw [← whole] at listed
    exact avoids_iff.mp (List.mem_takeWhile_imp (List.takeWhile_subset _ listed))
  rw [whole] at noEscape noBackslash
  refine ⟨⟨?_, ?_⟩, alone⟩
  · intro c known listed
    have cases : c = byte '%' ∨ c = byte '?' ∨ c = byte '#' ∨ c = byte '\\' ∨ c = byte ' ' := by
      simpa [ascii] using known
    rcases cases with rfl | rfl | rfl | rfl | rfl
    · exact noEscape listed
    · exact free _ listed (by decide)
    · exact free _ listed (by decide)
    · exact noBackslash listed
    · exact absurd (stays _ listed) (by decide)
  · refine (schemePart_none ?_).mp unnamed
    intro c known listed
    rcases List.mem_cons.mp known with rfl | mark
    · exact slashless listed
    · exact free c listed mark

/-- A link that leads to an entry below the path is a name that means itself. -/
theorem LeadsTo.plainName (leads : LeadsTo (ofTarget host target) name host (path ++ name) limit)
    (directory : Directory target path segments names behind) (valid : ValidName name)
    (controls : ∀ c ∈ name, isControl c = false) (visible : ∀ c ∈ target, isStreamSpace c = false)
    (begins : target.head? = some (byte '/')) (plain : InLine host) :
    PlainName name ∧ behind = [] := by
  have slashless : byte '/' ∉ name := valid.2.2.2.1
  have segment : Segment name := ⟨valid.1, ⟨valid.2.1, valid.2.2.1⟩, slashless⟩
  have inLine : InLine name := by
    constructor
    · exact fun listed => absurd (controls 13 listed) (by decide)
    · exact fun listed => absurd (controls 10 listed) (by decide)
  rcases leads.read slashless inLine (inLine_of_visible visible) plain with ⟨unnamed, read⟩
  have own := (parse_relative slashless unnamed).1
  have empty : InLine [] := ⟨List.not_mem_nil, List.not_mem_nil⟩
  have alone {front : Bytes} (decoded : decodePath (front ++ [].takeWhile staysInPath) =
      some (path ++ name)) : decodePath front = some (path ++ name) := by
    rwa [List.takeWhile_nil, List.append_nil] at decoded
  rw [resolvedPath, own] at read
  split at read
  next noPath =>
    -- the name is a query or a fragment of the listing itself
    have first : (targetPath target).head? = some (byte '/') := by
      rcases List.head?_eq_some_iff.mp begins with ⟨others, rfl⟩
      rfl
    have decoded := read (targetPath target) [] (List.append_nil _).symm first
      (staysInPath_targetPath visible) empty
    exact absurd (alone decoded) (directory.decodePath_targetPath segment begins)
  split at read
  next slash => exact absurd (List.takeWhile_subset _ (List.mem_of_head? slash)) slashless
  have inside : name.takeWhile (avoids "?#") ⊆ name := List.takeWhile_subset _
  have plainText : InLine (name.takeWhile (avoids "?#")) :=
    ⟨fun listed => inLine.1 (inside listed), fun listed => inLine.2 (inside listed)⟩
  have same : (ofTarget host target).path = targetPath target := rfl
  rw [same, directory.removeDots_eq fun listed => slashless (inside listed)] at read
  have dots := directory.decodePath_dots segment
  split at read
  next dot =>
    have decoded := read _ [] (List.append_nil _).symm rfl directory.plain_filter empty
    exact absurd (alone decoded) dots.1
  split at read
  next up =>
    have stays : ∀ c ∈ byte '/' :: slashedText (segments.filter (· ≠ ascii ".")).dropLast,
        staysInPath c = true := by
      intro c listed
      refine directory.plain_filter c ?_
      rcases List.mem_cons.mp listed with rfl | further
      · exact List.mem_cons_self
      · exact List.mem_cons_of_mem _
          (mem_slashedText_of_subset (List.dropLast_subset _) c further)
    have decoded := read _ [] (List.append_nil _).symm rfl stays empty
    exact absurd (alone decoded) dots.2
  next entry =>
    have decoded := read _ _ List.cons_append.symm rfl directory.plain_filter plainText
    exact plainName_of_keptNames slashless unnamed
      (directory.keptNames_last segment decoded)

theorem path_plainName (valid : PlainName name) :
    byte '%' ∉ name ∧ byte '?' ∉ name ∧ byte '#' ∉ name ∧ byte '\\' ∉ name ∧ byte ' ' ∉ name := by
  have free := valid.unmarked
  exact ⟨free _ (by decide), free _ (by decide), free _ (by decide), free _ (by decide),
    free _ (by decide)⟩

theorem staysInPath_name (valid : PlainName name) (controls : ∀ c ∈ name, isControl c = false) :
    ∀ c ∈ name, staysInPath c = true := by
  have control (c : UInt8) : isControl c = false → c ≠ byte ' ' → c ≠ byte '?' →
      staysInPath c = true := by
    revert c
    apply forall_byte
    decide +kernel
  intro c listed
  refine control c (controls c listed) ?_ ?_
  · rintro rfl
    exact (path_plainName valid).2.2.2.2 listed
  · rintro rfl
    exact (path_plainName valid).2.1 listed

/-- A name that means itself leads from the directory of its path to its entry. -/
theorem leadsTo_of_plainName (directory : Directory target path segments names [])
    (valid : ValidName name) (controls : ∀ c ∈ name, isControl c = false)
    (plainName : PlainName name) (plain : InLine host) :
    LeadsTo (ofTarget host target) name host (path ++ name) limit := by
  have slashless : byte '/' ∉ name := valid.2.2.2.1
  have segment : Segment name := ⟨valid.1, ⟨valid.2.1, valid.2.2.1⟩, slashless⟩
  rcases path_plainName plainName with ⟨noEscape, noQuery, noFragment, noBackslash, _⟩
  have unmarked : ∀ c ∈ ascii "/?#", c ∉ name := by
    intro c known
    have cases : c = byte '/' ∨ c = byte '?' ∨ c = byte '#' := by simpa [ascii] using known
    rcases cases with rfl | rfl | rfl
    · exact slashless
    · exact noQuery
    · exact noFragment
  have merged : (ofTarget host target).resolvedPath { path := name } =
      byte '/' :: (slashedText (segments.filter (· ≠ ascii ".")) ++ name) := by
    have first : name.head? ≠ some (byte '/') := fun slash => slashless (List.mem_of_head? slash)
    have same : (ofTarget host target).path = targetPath target := rfl
    rw [resolvedPath, if_neg valid.1, if_neg first, same, directory.removeDots_eq slashless,
      if_neg valid.2.1, if_neg valid.2.2.1]
  have stays : ∀ c ∈ byte '/' :: (slashedText (segments.filter (· ≠ ascii ".")) ++ name),
      staysInPath c = true := by
    rw [← List.cons_append]
    intro c listed
    rcases List.mem_append.mp listed with upper | own
    · exact directory.plain_filter c upper
    · exact staysInPath_name plainName controls c own
  have encoded : encodedPath (byte '/' ::
      (slashedText (segments.filter (· ≠ ascii ".")) ++ name)) =
      byte '/' :: (slashedText (segments.filter (· ≠ ascii ".")) ++ name) :=
    List.takeWhile_eq_self_iff.mpr fun c listed =>
      bne_iff_ne.mpr (staysInPath_iff.mp (stays c listed)).2
  have decoded := decodePath_child ((namesOf_filter segments).trans directory.found) segment
    (decodeCharacters_eq_self controls noEscape noBackslash)
  have entry : byte '/' :: (slashedText names ++ name) = path ++ name := by
    rw [directory.path, List.append_nil, List.cons_append]
  rw [← encoded, entry] at decoded
  have begins : (byte '/' :: (slashedText (segments.filter (· ≠ ascii ".")) ++ name)).head? =
      some (byte '/') := rfl
  have accepted := parseRequest_requestFor (by decide : validToken (ascii "GET") = true) (by decide)
    begins (fun c listed => (staysInPath_iff.mp (stays c listed)).1) plain decoded limit
  have spelled : ((ofTarget host target).resolve { path := name }).target =
      byte '/' :: (slashedText (segments.filter (· ≠ ascii ".")) ++ name) := by
    rw [resolve_relative rfl rfl, merged, Reference.target]
    dsimp only
    rw [if_neg valid.1, List.append_nil]
  rw [LeadsTo, parse_name unmarked plainName.noScheme]
  refine ⟨by rw [resolve_relative rfl rfl], by rw [resolve_relative rfl rfl], ?_⟩
  rw [spelled]
  exact ⟨_, accepted, rfl⟩

end Leads

/-- The link of an entry leads to it exactly where its name means itself and the path of the
listing names nothing behind the last slash of its URL. -/
theorem linked_iff {disk : Disk} {config : ServerConfig} {raw host page name : Bytes}
    {maxBody : Nat} {request : Request} {directory : Path}
    (listed : Listed disk config raw maxBody request directory page) (plain : InLine host)
    (limit : Nat) (entry : name ∈ disk.entries directory)
    (named : name ≠ ascii "." ∧ name ≠ ascii "..") (controls : ∀ c ∈ name, isControl c = false) :
    Linked page (ofTarget host request.target) host name (request.path ++ name) limit ↔
      PlainName name ∧ keptNames (pathEnd request.target) = some [] := by
  rcases target_of_parseRequest listed.accepted with ⟨begins, visible, decoded⟩
  rcases exists_directory begins visible decoded listed.listing.1 with
    ⟨segments, names, behind, parts⟩
  have valid : ValidName name := by
    rcases Disk.mem_entries entry with dot | dots | valid
    · exact absurd dot named.1
    · exact absurd dots named.2
    · exact valid
  rw [listed.linked_leadsTo entry named.1, parts.ending, Option.some.injEq]
  constructor
  · exact fun leads => leads.plainName parts valid controls visible begins plain
  · rintro ⟨plainName, rfl⟩
    exact leadsTo_of_plainName parts valid controls plainName plain

/-- A server that lists its directories. -/
def listingServer : ServerConfig where
  autoindex := true

/-- The default root with two files in it. -/
def listedDisk : Disk where
  tree := (((FileTree.empty {}).put [] (ascii "www") (.directory {})).put [ascii "www"]
    (ascii "notes.txt") (.file [] true)).put [ascii "www"] (ascii "50%.txt") (.file [] true)
  directory := []

def rootRequest : Request where
  method := ascii "GET"
  target := ascii "/"
  path := ascii "/"
  version := ascii "HTTP/1.1"
  headers := (∅ : ExtTreeMap Bytes Bytes).insert (ascii "host") (ascii "a")

def rootPage : Bytes :=
  (StaticHandler.handle listedDisk rootRequest (Router.resolve rootRequest listingServer)
    listingServer).body

theorem listed_root : Listed listedDisk listingServer (ascii "GET / HTTP/1.1\r\nHost: a\r\n\r\n") 0
    rootRequest [ascii "www"] rootPage := by
  refine ⟨by decide +kernel, ⟨ascii "/www", {}, by decide +kernel, by decide +kernel⟩, ?_,
    by decide +kernel, rfl⟩
  cases chosen : StaticHandler.chooseFile listedDisk rootRequest
      (Router.resolve rootRequest listingServer) listingServer with
  | error response => exact ⟨response, rfl⟩
  | ok file =>
      have none : (StaticHandler.chooseFile listedDisk rootRequest
        (Router.resolve rootRequest listingServer) listingServer).toBool = false := by
        decide +kernel
      rw [chosen] at none
      cases none

theorem linked_iff_notes :
    Linked rootPage (ofTarget (ascii "a") (ascii "/")) (ascii "a") (ascii "notes.txt")
      (ascii "/notes.txt") 0 := by
  have plainName : PlainName (ascii "notes.txt") := ⟨by decide +kernel, by decide +kernel⟩
  exact (linked_iff listed_root (by decide) 0 (by decide +kernel) (by decide +kernel)
    (by decide +kernel)).mpr ⟨plainName, by decide +kernel⟩

/-- The link of a name with a percent sign is refused when it is followed. -/
theorem linked_fails_percent :
    Listed listedDisk listingServer (ascii "GET / HTTP/1.1\r\nHost: a\r\n\r\n") 0 rootRequest
      [ascii "www"] rootPage ∧
    ascii "50%.txt" ∈ listedDisk.entries [ascii "www"] ∧
    ¬Linked rootPage (ofTarget (ascii "a") (ascii "/")) (ascii "a") (ascii "50%.txt")
      (ascii "/50%.txt") 0 := by
  have entry : ascii "50%.txt" ∈ listedDisk.entries [ascii "www"] := by decide +kernel
  refine ⟨listed_root, entry, ?_⟩
  rw [listed_root.linked_leadsTo entry (by decide)]
  rintro ⟨_, _, next, accepted, _⟩
  have refused : parseRequest (requestFor (ascii "GET") ((ofTarget (ascii "a") (ascii "/")).resolve
      (parse (ascii "50%.txt"))).target (ascii "a")) 0 = .bad := by decide +kernel
  rw [refused] at accepted
  cases accepted

end IrcPlatform.Webserv
