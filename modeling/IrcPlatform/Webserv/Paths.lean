import IrcPlatform.Library.Splitting
import IrcPlatform.Webserv.Router

/-!
# Confined paths

The path of an accepted request is a slash and a confined rest: no segment of it
leads out of the directory it is looked up in. Routing keeps it so, because the
prefix of a location ends where a segment does.
-/

namespace IrcPlatform.Webserv

/-- A path below a root that stays below it. -/
structure Confined (rest : Bytes) : Prop where
  no_dots : ∀ segment ∈ rest.splitOn (byte '/'), segment ≠ ascii "." ∧ segment ≠ ascii ".."
  no_gaps : ∀ segment ∈ (rest.splitOn (byte '/')).dropLast, segment ≠ []
  no_controls : ∀ c ∈ rest, isControl c = false

/-! ## Escapes -/

theorem isControl_toUInt8 {value : Nat} (plain : 0x20 ≤ value % 256)
    (notDelete : value % 256 ≠ 0x7f) : isControl value.toUInt8 = false := by
  have byteValue : value.toUInt8.toNat = value % 256 := UInt8.toNat_ofNat'
  rw [isControl, Bool.or_eq_false_iff, decide_eq_false_iff_not, UInt8.not_lt, beq_eq_false_iff_ne]
  constructor
  · rw [UInt8.le_iff_toNat_le, byteValue]
    exact plain
  · intro same
    rw [same] at byteValue
    exact notDelete byteValue.symm

/-- A sign before the second digit makes a byte above `0xf0`. -/
theorem decodeEscape_plain {first second value : UInt8}
    (decoded : decodeEscape first second = some value) : isControl value = false := by
  rcases Option.bind_eq_some_iff.mp decoded with ⟨number, spelled, accepted⟩
  rcases Option.bind_eq_some_iff.mp spelled with ⟨⟨_, rest⟩, read, whole⟩
  simp only at whole
  split at whole
  · simp at whole
  rcases Option.some.inj whole with rfl
  split at accepted
  · simp at accepted
  next plain =>
    rw [← Option.some.inj accepted]
    simp only [not_or] at plain
    rcases readHex_value read with small | ⟨negated, small, rfl⟩
    · apply isControl_toUInt8 <;> simp only [List.length_cons, List.length_nil] at small <;> omega
    · apply isControl_toUInt8 <;> simp only [List.length_cons, List.length_nil] at small <;> omega

theorem decodeCharacters_cons {c : UInt8} (rest : Bytes) (notEscape : c ≠ byte '%') :
    decodeCharacters (c :: rest) =
      if isControl c || c == byte '\\' then none
      else (decodeCharacters rest).map (c :: ·) := by
  rw [decodeCharacters.eq_def]
  exact if_neg notEscape

theorem decodeCharacters_plain {input decoded : Bytes}
    (result : decodeCharacters input = some decoded) :
    ∀ c ∈ decoded, isControl c = false := by
  induction input using decodeCharacters.induct generalizing decoded with
  | case1 =>
      rw [decodeCharacters, Option.some.injEq] at result
      simp [← result]
  | case2 first second rest ih =>
      rw [decodeCharacters, if_pos rfl] at result
      rcases Option.bind_eq_some_iff.mp result with ⟨value, escape, result⟩
      rcases Option.map_eq_some_iff.mp result with ⟨later, decodedRest, rfl⟩
      intro c mem
      rcases List.mem_cons.mp mem with rfl | mem
      · exact decodeEscape_plain escape
      · exact ih decodedRest c mem
  | case3 rest short =>
      rw [decodeCharacters, if_pos rfl] at result
      · simp at result
      · exact short
  | case4 c rest notEscape refused =>
      rw [decodeCharacters_cons rest notEscape, if_pos refused] at result
      simp at result
  | case5 c rest notEscape plain ih =>
      rw [decodeCharacters_cons rest notEscape, if_neg plain] at result
      rcases Option.map_eq_some_iff.mp result with ⟨later, decodedRest, rfl⟩
      intro other mem
      rcases List.mem_cons.mp mem with rfl | mem
      · simp only [Bool.or_eq_true, not_or] at plain
        exact Bool.eq_false_iff.mpr plain.1
      · exact ih decodedRest other mem

/-- Characters that need no decoding. -/
theorem decodeCharacters_eq_self {text : Bytes} (plain : ∀ c ∈ text, isControl c = false)
    (noEscape : byte '%' ∉ text) (noBackslash : byte '\\' ∉ text) :
    decodeCharacters text = some text := by
  induction text with
  | nil => rfl
  | cons c rest ih =>
      have first := plain c List.mem_cons_self
      simp only [List.mem_cons, not_or] at noEscape noBackslash
      have later := ih (fun other mem => plain other (List.mem_cons_of_mem _ mem))
        noEscape.2 noBackslash.2
      rw [decodeCharacters_cons rest (Ne.symm noEscape.1), if_neg, later, Option.map_some]
      simp only [first, Bool.false_or, beq_iff_eq]
      exact Ne.symm noBackslash.1

/-! ## Segments -/

/-- The text of a path with the given segments. -/
def rooted (segments : List Bytes) : Bytes := byte '/' :: [byte '/'].intercalate segments

/-- The segments that normalisation keeps. -/
def kept (segments : List Bytes) : List Bytes :=
  segments.filter fun segment => segment ≠ [] ∧ segment ≠ ascii "."

/-- A segment that names an entry of a directory. -/
structure Segment (segment : Bytes) : Prop where
  nonempty : segment ≠ []
  no_dots : segment ≠ ascii "." ∧ segment ≠ ascii ".."
  no_slash : byte '/' ∉ segment

theorem rooted_concat {done : List Bytes} (segment : Bytes)
    (nonempty : ∀ piece ∈ done, piece ≠ []) :
    (if 1 < (rooted done).length then rooted done ++ ascii "/" else rooted done) ++ segment =
      rooted (done ++ [segment]) := by
  cases done with
  | nil => simp [rooted]
  | cons first rest =>
      have long : 1 < (rooted (first :: rest)).length := by
        have := List.length_pos_of_ne_nil (nonempty first List.mem_cons_self)
        cases rest <;>
          simp only [rooted, List.length_cons, List.intercalate_singleton,
            List.intercalate_cons_cons, List.length_append] <;> omega
      rw [if_pos long, rooted, rooted, intercalate_concat _ _ (List.cons_ne_nil _ _)]
      simp [ascii]

/-- Normalisation keeps the segments in order and refuses to go up. -/
theorem joinSegments_rooted {done segments : List Bytes} (nonempty : ∀ piece ∈ done, piece ≠ []) :
    joinSegments (rooted done) segments =
      if ascii ".." ∈ segments then none else some (rooted (done ++ kept segments)) := by
  induction segments generalizing done with
  | nil => simp [joinSegments, kept]
  | cons segment rest ih =>
      by_cases up : segment = ascii ".."
      · simp [joinSegments, up]
      have dots : (ascii ".." ∈ segment :: rest) = (ascii ".." ∈ rest) := by simp [Ne.symm up]
      by_cases skipped : segment = [] ∨ segment = ascii "."
      · rw [joinSegments, if_neg up, if_pos skipped, ih nonempty]
        have dropped : kept (segment :: rest) = kept rest := by
          rw [kept, List.filter_cons_of_neg, kept]
          simpa [or_iff_not_imp_left] using skipped
        simp only [dots, dropped]
      · rw [joinSegments, if_neg up, if_neg skipped, rooted_concat segment nonempty, ih]
        · have taken : kept (segment :: rest) = segment :: kept rest := by
            rw [kept, List.filter_cons_of_pos, kept]
            simpa [not_or] using skipped
          simp only [dots, taken, List.append_assoc, List.singleton_append]
        · intro piece mem
          rcases List.mem_append.mp mem with before | here
          · exact nonempty piece before
          · exact List.mem_singleton.mp here ▸ fun empty => skipped (Or.inl empty)

theorem getLast?_rooted {segments : List Bytes} (nonempty : segments ≠ [])
    (good : ∀ segment ∈ segments, Segment segment) :
    (rooted segments).getLast? ≠ some (byte '/') := by
  rcases List.eq_nil_or_concat' segments |>.resolve_left nonempty with ⟨front, last, rfl⟩
  have lastGood := good last (List.mem_append_right _ (List.mem_singleton_self _))
  have ends : ∃ before, rooted (front ++ [last]) = before ++ last := by
    cases front with
    | nil => exact ⟨[byte '/'], by simp [rooted]⟩
    | cons first rest =>
        refine ⟨rooted (first :: rest) ++ [byte '/'], ?_⟩
        rw [rooted, intercalate_concat _ _ (List.cons_ne_nil first rest), rooted]
        simp
  rcases ends with ⟨before, ends⟩
  rw [ends, List.getLast?_append_of_ne_nil _ lastGood.nonempty]
  exact fun slash => lastGood.no_slash (List.mem_of_getLast? slash)

theorem confined_intercalate {segments tail : List Bytes}
    (good : ∀ segment ∈ segments, Segment segment)
    (plain : ∀ segment ∈ segments, ∀ c ∈ segment, isControl c = false)
    (tail_eq : tail = [] ∨ tail = [[]]) :
    Confined ([byte '/'].intercalate (segments ++ tail)) := by
  have inTail : ∀ segment ∈ tail, segment = [] := by
    rcases tail_eq with rfl | rfl <;> simp
  have noSlash : ∀ segment ∈ segments ++ tail, byte '/' ∉ segment := by
    intro segment mem
    rcases List.mem_append.mp mem with mem | mem
    · exact (good segment mem).no_slash
    · simp [inTail segment mem]
  have members : ∀ segment ∈ ([byte '/'].intercalate (segments ++ tail)).splitOn (byte '/'),
      segment ∈ segments ∨ segment = [] := by
    by_cases empty : segments ++ tail = []
    · simp [empty]
    · intro segment mem
      rw [List.splitOn_intercalate _ noSlash empty] at mem
      exact (List.mem_append.mp mem).imp id (inTail segment)
  constructor
  · intro segment mem
    rcases members segment mem with mem | rfl
    · exact (good segment mem).no_dots
    · exact ⟨by decide, by decide⟩
  · intro segment mem
    by_cases empty : segments ++ tail = []
    · simp [empty] at mem
    rw [List.splitOn_intercalate _ noSlash empty] at mem
    refine (good segment ?_).nonempty
    rcases tail_eq with rfl | rfl
    · exact List.append_nil segments ▸ List.mem_of_mem_dropLast mem
    · rwa [List.dropLast_concat] at mem
  · intro c mem
    rcases mem_of_mem_intercalate mem with rfl | ⟨segment, inSegments, inSegment⟩
    · decide
    · rcases List.mem_append.mp inSegments with here | here
      · exact plain segment here c inSegment
      · simp [inTail segment here] at inSegment

/-! ## Decoded paths -/

/-- The slash at the end of the input is kept. -/
def restoreSlash (decoded output : Bytes) : Bytes :=
  if 1 < decoded.length && decoded.getLast? == some (byte '/') &&
      output.getLast? != some (byte '/') then output ++ ascii "/"
  else output

theorem decodePath_eq {input decoded : Bytes} (characters : decodeCharacters input = some decoded) :
    decodePath input =
      if ascii ".." ∈ (decoded.drop 1).splitOn (byte '/') then none
      else some (restoreSlash decoded (rooted (kept ((decoded.drop 1).splitOn (byte '/'))))) := by
  have joined : joinSegments (rooted []) ((decoded.drop 1).splitOn (byte '/')) = _ :=
    joinSegments_rooted (by simp)
  rw [List.nil_append] at joined
  rw [decodePath, characters, Option.bind_some]
  change (joinSegments (rooted []) _).map _ = _
  rw [joined]
  split <;> rfl

theorem kept_good {segments : List Bytes} (noSlash : ∀ segment ∈ segments, byte '/' ∉ segment)
    (noUp : ascii ".." ∉ segments) : ∀ segment ∈ kept segments, Segment segment := by
  intro segment mem
  obtain ⟨mem, nonempty, noDot⟩ : segment ∈ segments ∧ segment ≠ [] ∧ segment ≠ ascii "." := by
    simpa [kept] using mem
  exact ⟨nonempty, ⟨noDot, fun up => noUp (up ▸ mem)⟩, noSlash segment mem⟩

/-- The path of a request is a slash and a confined rest. -/
theorem decodePath_confined {input path : Bytes} (result : decodePath input = some path) :
    ∃ rest, path = byte '/' :: rest ∧ Confined rest := by
  rcases Option.bind_eq_some_iff.mp result with ⟨decoded, characters, _⟩
  rw [decodePath_eq characters] at result
  split at result
  · simp at result
  next noUp =>
    rcases Option.some.inj result with rfl
    have good := kept_good (fun _ => not_mem_of_mem_splitOn) noUp
    have plain : ∀ segment ∈ kept ((decoded.drop 1).splitOn (byte '/')),
        ∀ c ∈ segment, isControl c = false := fun segment mem c inSegment =>
      decodeCharacters_plain characters c
        (List.mem_of_mem_drop (mem_of_mem_splitOn (List.mem_of_mem_filter mem) inSegment).1)
    generalize kept ((decoded.drop 1).splitOn (byte '/')) = segments at good plain
    unfold restoreSlash
    split
    next restored =>
      have nonempty : segments ≠ [] := by
        rintro rfl
        simp [rooted] at restored
      refine ⟨_, ?_, confined_intercalate good plain (Or.inr rfl)⟩
      rw [intercalate_concat _ _ nonempty, rooted]
      rfl
    · exact ⟨_, by rw [List.append_nil]; rfl, confined_intercalate good plain (Or.inl rfl)⟩

theorem kept_eq_self {segments : List Bytes}
    (good : ∀ segment ∈ segments, segment ≠ [] ∧ segment ≠ ascii ".") : kept segments = segments :=
  List.filter_eq_self.mpr fun segment mem => decide_eq_true (good segment mem)

theorem restoreSlash_self (path : Bytes) : restoreSlash path path = path := by
  unfold restoreSlash
  split
  next ends => exact absurd ends (by simp)
  · rfl

theorem restoreSlash_concat {output : Bytes} (nonempty : output ≠ [])
    (notSlash : output.getLast? ≠ some (byte '/')) :
    restoreSlash (output ++ [byte '/']) output = output ++ [byte '/'] := by
  have long : 1 < (output ++ [byte '/']).length := by
    rw [List.length_append]
    exact Nat.lt_add_of_pos_left (List.length_pos_of_ne_nil nonempty)
  rw [restoreSlash, if_pos]
  · rfl
  · rw [decide_eq_true long]
    simp [notSlash]

/-- Normalisation of a confined path changes nothing. -/
theorem restoreSlash_rooted_kept {rest : Bytes} (confined : Confined rest) :
    restoreSlash (byte '/' :: rest) (rooted (kept (rest.splitOn (byte '/')))) =
      byte '/' :: rest := by
  have joined : [byte '/'].intercalate (rest.splitOn (byte '/')) = rest :=
    List.intercalate_splitOn (byte '/')
  have good := fun segment mem => (confined.no_dots segment mem).1
  have noSlash := fun segment (mem : segment ∈ rest.splitOn (byte '/')) =>
    not_mem_of_mem_splitOn mem
  have noUp := fun segment mem => (confined.no_dots segment mem).2
  have noGaps := confined.no_gaps
  obtain ⟨front, last, pieces⟩ := List.eq_nil_or_concat' (rest.splitOn (byte '/'))
    |>.resolve_left (List.splitOn_ne_nil _ _)
  rw [pieces, List.dropLast_concat] at noGaps
  rw [pieces] at joined good noSlash noUp ⊢
  have frontGood : ∀ segment ∈ front, Segment segment := fun segment mem =>
    have inAll := List.mem_append_left [last] mem
    ⟨noGaps segment mem, ⟨good segment inAll, noUp segment inAll⟩, noSlash segment inAll⟩
  have frontKept : kept front = front :=
    kept_eq_self fun segment mem => ⟨noGaps segment mem, (frontGood segment mem).no_dots.1⟩
  by_cases empty : last = []
  · have dropped : kept (front ++ [last]) = front := by
      rw [kept, List.filter_append, ← kept, frontKept, empty]
      simp
    rw [dropped, ← joined, empty]
    cases front with
    | nil => rfl
    | cons first others =>
        have notSlash := getLast?_rooted (List.cons_ne_nil first others) frontGood
        rw [intercalate_concat _ _ (List.cons_ne_nil first others)]
        change restoreSlash (rooted (first :: others) ++ [byte '/']) _ =
          rooted (first :: others) ++ [byte '/']
        exact restoreSlash_concat (List.cons_ne_nil _ _) notSlash
  · rw [kept_eq_self, rooted, joined, restoreSlash_self]
    intro segment mem
    refine ⟨?_, good segment mem⟩
    rcases List.mem_append.mp mem with before | here
    · exact noGaps segment before
    · exact List.mem_singleton.mp here ▸ empty

theorem decodePath_eq_self {rest : Bytes} (confined : Confined rest)
    (noEscape : byte '%' ∉ byte '/' :: rest) (noBackslash : byte '\\' ∉ byte '/' :: rest) :
    decodePath (byte '/' :: rest) = some (byte '/' :: rest) := by
  have plain : ∀ c ∈ byte '/' :: rest, isControl c = false := by
    intro c mem
    rcases List.mem_cons.mp mem with rfl | mem
    · decide
    · exact confined.no_controls c mem
  rw [decodePath_eq (decodeCharacters_eq_self plain noEscape noBackslash), List.drop_one,
    List.tail_cons, if_neg fun up => (confined.no_dots _ up).2 rfl,
    restoreSlash_rooted_kept confined]

/-! ## Routing -/

/-- What follows a slash of a confined path is confined. -/
theorem Confined.behind {rest front back : Bytes} (confined : Confined rest)
    (path : byte '/' :: rest = front ++ byte '/' :: back) : Confined back := by
  cases front with
  | nil => exact (List.cons.inj path).2 ▸ confined
  | cons first front =>
      obtain rfl : rest = front ++ byte '/' :: back := (List.cons.inj path).2
      constructor
      · intro segment mem
        refine confined.no_dots segment ?_
        rw [List.splitOn_append_cons_self]
        exact List.mem_append_right _ mem
      · intro segment mem
        refine confined.no_gaps segment ?_
        rw [dropLast_splitOn_append]
        exact List.mem_append_right _ mem
      · exact fun c mem => confined.no_controls c
          (List.mem_append_right _ (List.mem_cons_of_mem _ mem))

theorem confined_nil : Confined [] :=
  ⟨by decide, by decide, fun c mem => absurd mem List.not_mem_nil⟩

theorem beginsWith_iff {path start : Bytes} : beginsWith path start ↔ start <+: path := by
  rw [beginsWith, beq_iff_eq, List.prefix_iff_eq_take, eq_comm]

theorem matchLocation_spec {config : ServerConfig} {path : Bytes} {location : Location}
    (found : matchLocation config path = some location) :
    location ∈ config.locations ∧ location.path <+: path ∧ atBoundary location.path path := by
  refine List.foldlRecOn config.locations _
    (motive := fun best => ∀ location, best = some location →
      location ∈ config.locations ∧ location.path <+: path ∧ atBoundary location.path path)
    (by simp) ?_ location found
  intro best good candidate mem location chosen
  split at chosen
  next taken =>
    rcases Option.some.inj chosen with rfl
    simp only [Bool.and_eq_true, beginsWith_iff] at taken
    exact ⟨mem, taken.1.1, taken.1.2⟩
  · exact good location chosen

/-- The text that a prefix ending at a boundary leaves of a path with a slash in front. -/
theorem relative_confined {rest start : Bytes} (confined : Confined rest)
    (begins : start <+: byte '/' :: rest) (boundary : atBoundary start (byte '/' :: rest)) :
    ∃ below, (if ((byte '/' :: rest).drop start.length).head? = some (byte '/') then
        (byte '/' :: rest).drop start.length
      else ascii "/" ++ (byte '/' :: rest).drop start.length) = byte '/' :: below ∧
      Confined below := by
  rcases begins with ⟨back, path⟩
  rw [← path, List.drop_left]
  split
  next slash =>
    rcases List.head?_eq_some_iff.mp slash with ⟨below, rfl⟩
    exact ⟨below, rfl, confined.behind path.symm⟩
  next noSlash =>
    refine ⟨back, rfl, ?_⟩
    cases back with
    | nil => exact confined_nil
    | cons c back =>
        have ends : start.getLast? = some (byte '/') := by
          rw [← path] at boundary
          simp only [atBoundary, Bool.or_eq_true, beq_iff_eq] at boundary
          rcases boundary with ((rfl | ends) | same) | next
          · rfl
          · exact ends
          · simp at same
          · rw [List.getElem?_append_right le_rfl, Nat.sub_self] at next
            exact absurd next noSlash
        rcases List.getLast?_eq_some_iff.mp ends with ⟨front, rfl⟩
        have split : byte '/' :: rest = front ++ byte '/' :: (c :: back) := by
          rw [← path, List.append_assoc]
          rfl
        exact confined.behind split

theorem relativePath_confined (config : ServerConfig) {rest : Bytes} (confined : Confined rest) :
    ∃ below, Router.relativePath (byte '/' :: rest) (matchLocation config (byte '/' :: rest)) =
      byte '/' :: below ∧ Confined below := by
  unfold Router.relativePath
  cases found : matchLocation config (byte '/' :: rest) with
  | none => exact ⟨rest, rfl, confined⟩
  | some location =>
      rcases matchLocation_spec found with ⟨_, begins, boundary⟩
      have erased := relative_confined confined begins boundary
      simpa only [beginsWith_iff.mpr begins, if_true] using erased

theorem Router.resolve_location (request : Request) (config : ServerConfig) :
    (Router.resolve request config).location = matchLocation config request.path := by
  unfold Router.resolve
  simp only
  split
  · rfl
  · split <;> rfl

theorem Router.resolve_diskPath {request : Request} {config : ServerConfig}
    (ready : (Router.resolve request config).status = .ready) :
    (Router.resolve request config).diskPath =
      selectedRoot config (matchLocation config request.path) ++
        Router.relativePath request.path (matchLocation config request.path) := by
  unfold Router.resolve at ready ⊢
  simp only at ready ⊢
  split at ready
  · simp at ready
  next allowed =>
    split at ready
    · simp at ready
    next served => rw [if_neg allowed, if_neg served]

theorem parseHead_path {head : Bytes} {request : Request} (parsed : parseHead head = .ok request) :
    ∃ input, decodePath input = some request.path := by
  unfold parseHead at parsed
  repeat' split at parsed
  all_goals try simp at parsed
  rcases parsed with rfl
  exact ⟨_, ‹_›⟩

theorem parseHead_error {head : Bytes} {verdict : ParseResult}
    (failed : parseHead head = .error verdict) :
    verdict = .bad ∨ verdict = .versionNotSupported := by
  unfold parseHead at failed
  repeat' split at failed
  all_goals simp at failed
  all_goals simp [← failed]

theorem parseBody_path {maxBody : Nat} {head request : Request} {payload : Bytes}
    (parsed : parseBody maxBody head payload = .ok request) : request.path = head.path := by
  unfold parseBody takeBody ParseResult.ofChunked at parsed
  repeat' split at parsed
  all_goals try simp at parsed
  all_goals rw [← parsed]

theorem parseRequest_path {raw : Bytes} {maxBody : Nat} {request : Request}
    (accepted : parseRequest raw maxBody = .ok request) :
    ∃ rest, request.path = byte '/' :: rest ∧ Confined rest := by
  unfold parseRequest at accepted
  split at accepted
  · split at accepted <;> simp at accepted
  split at accepted
  next verdict failed =>
    rcases parseHead_error failed with bad | version
    · exact absurd (bad.symm.trans accepted) (by simp)
    · exact absurd (version.symm.trans accepted) (by simp)
  next head parsed =>
    rcases parseHead_path parsed with ⟨input, decoded⟩
    rw [parseBody_path accepted]
    exact decodePath_confined decoded

/-- What is looked up on disk for an accepted request lies below the selected root. -/
theorem resolve_confined {raw : Bytes} {maxBody : Nat} {request : Request}
    (accepted : parseRequest raw maxBody = .ok request) :
    (∃ rest, request.path = byte '/' :: rest ∧ Confined rest) ∧
      (byte '%' ∉ request.path → byte '\\' ∉ request.path →
        decodePath request.path = some request.path) ∧
      ∀ config : ServerConfig, (Router.resolve request config).status = .ready →
        ∃ rest, (Router.resolve request config).diskPath =
            selectedRoot config (Router.resolve request config).location ++ byte '/' :: rest ∧
          Confined rest := by
  rcases parseRequest_path accepted with ⟨rest, path, confined⟩
  refine ⟨⟨rest, path, confined⟩, ?_, ?_⟩
  · intro noEscape noBackslash
    rw [path] at noEscape noBackslash ⊢
    exact decodePath_eq_self confined noEscape noBackslash
  · intro config ready
    rcases relativePath_confined config confined with ⟨below, relative, belowConfined⟩
    refine ⟨below, ?_, belowConfined⟩
    rw [Router.resolve_diskPath ready, Router.resolve_location, path, relative]

/-- A server with one location. -/
def filesServer : ServerConfig where
  locations := [{ path := ascii "/files", root := ascii "www", methods := [ascii "GET"] }]

/-- A path with an escape and empty segments below the location. -/
def escapedRequest : Bytes := ascii "GET /files/%41//./b HTTP/1.1\r\nHost: a\r\n\r\n"

theorem resolve_confined_escaped :
    ∃ request, parseRequest escapedRequest 16 = .ok request ∧ request.path = ascii "/files/A/b" ∧
      (Router.resolve request filesServer).diskPath = ascii "www/A/b" ∧
      ∃ rest, ascii "www/A/b" = ascii "www" ++ byte '/' :: rest ∧ Confined rest := by
  have parsed : parseRequest escapedRequest 16 = .ok
      { method := ascii "GET", target := ascii "/files/%41//./b", path := ascii "/files/A/b"
        version := ascii "HTTP/1.1", headers := .ofList [(ascii "host", ascii "a")] } := by
    decide +kernel
  refine ⟨_, parsed, rfl, by decide +kernel, ?_⟩
  exact (resolve_confined parsed).2.2 filesServer (by decide +kernel)

end IrcPlatform.Webserv
