import Mathlib.Data.List.DropRight
import Mathlib.Data.List.TakeWhile
import IrcPlatform.Library.Bytes
import IrcPlatform.Library.Splitting

/-!
# References

The components of a URI reference, and its resolution against the URL of the page that it stands
on (RFC 3986, section 5.2 and appendix B). The path of the page is absolute.
-/

namespace IrcPlatform

/-- None of these characters. -/
def avoids (characters : String) (c : UInt8) : Bool := !(ascii characters).contains c

structure Reference where
  scheme : Option Bytes := none
  authority : Option Bytes := none
  path : Bytes := []
  query : Option Bytes := none
  fragment : Option Bytes := none
deriving DecidableEq

namespace Reference

/-! ## Components -/

/-- The scheme, and what stands behind its colon. -/
def schemePart (text : Bytes) : Option Bytes × Bytes :=
  let front := text.takeWhile (avoids ":/?#")
  if front ≠ [] ∧ text[front.length]? = some (byte ':') then
    (some front, text.drop (front.length + 1))
  else (none, text)

def authorityPart (text : Bytes) : Option Bytes × Bytes :=
  if (ascii "//").isPrefixOf text then
    ((text.drop 2).takeWhile (avoids "/?#"), (text.drop 2).dropWhile (avoids "/?#"))
  else (none, text)

def queryPart (text : Bytes) : Option Bytes × Bytes :=
  if text.head? = some (byte '?') then
    (text.tail.takeWhile (avoids "#"), text.tail.dropWhile (avoids "#"))
  else (none, text)

def fragmentPart (text : Bytes) : Option Bytes :=
  if text.head? = some (byte '#') then some text.tail else none

def parse (text : Bytes) : Reference :=
  let (scheme, rest) := schemePart text
  let (authority, rest) := authorityPart rest
  let (query, behind) := queryPart (rest.dropWhile (avoids "?#"))
  { scheme := scheme
    authority := authority
    path := rest.takeWhile (avoids "?#")
    query := query
    fragment := fragmentPart behind }

/-! ## Resolution -/

/-- The segments of an absolute path without dot segments; one at the end leaves a slash. -/
def removeDotSegments : List Bytes → List Bytes → List Bytes
  | done, [] => done
  | done, segment :: rest =>
      if segment = ascii "." then
        if rest.isEmpty then done ++ [[]] else removeDotSegments done rest
      else if segment = ascii ".." then
        if rest.isEmpty then done.dropLast ++ [[]] else removeDotSegments done.dropLast rest
      else removeDotSegments (done ++ [segment]) rest

def removeDots (path : Bytes) : Bytes :=
  (removeDotSegments [] ((path.drop 1).splitOn (byte '/'))).flatMap (byte '/' :: ·)

/-- The path up to its last slash. -/
def directoryOf (path : Bytes) : Bytes := path.rdropWhile (· != byte '/')

def resolvedPath (base reference : Reference) : Bytes :=
  if reference.path = [] then base.path
  else if reference.path.head? = some (byte '/') then removeDots reference.path
  else removeDots (directoryOf base.path ++ reference.path)

/-- The URL that a reference on a page means. A reference with a scheme or an authority of its own
keeps its path here as it is. -/
def resolve (base reference : Reference) : Reference :=
  if reference.scheme.isSome then reference
  else if reference.authority.isSome then { reference with scheme := base.scheme }
  else
    { scheme := base.scheme
      authority := base.authority
      path := base.resolvedPath reference
      query := if reference.path = [] then reference.query <|> base.query else reference.query
      fragment := reference.fragment }

/-- The path of the URL at which a server is asked for a target. -/
def targetPath (target : Bytes) : Bytes := target.takeWhile (avoids "?#")

/-- The URL at which a server is asked for a target; it has no fragment. -/
def ofTarget (host target : Bytes) : Reference where
  scheme := some (ascii "http")
  authority := some host
  path := targetPath target
  query := (queryPart (target.dropWhile (avoids "?#"))).1

/-- What is asked for at the server of a URL. -/
def target (reference : Reference) : Bytes :=
  reference.path ++ match reference.query with
    | none => []
    | some query => ascii "?" ++ query

/-! ## Names as references -/

theorem avoids_iff {characters : String} {c : UInt8} :
    avoids characters c = true ↔ c ∉ ascii characters := by
  simp [avoids]

/-- What stands in front of the first mark, and the mark. -/
theorem takeWhile_avoids (characters : String) (text : Bytes) : ∃ front back, text = front ++ back ∧
    text.takeWhile (avoids characters) = front ∧ text.dropWhile (avoids characters) = back ∧
    (∀ c ∈ front, c ∉ ascii characters) ∧ ∀ c, back.head? = some c → c ∈ ascii characters := by
  refine ⟨_, _, List.takeWhile_append_dropWhile.symm, rfl, rfl, ?_, ?_⟩
  · exact fun c listed => avoids_iff.mp (List.mem_takeWhile_imp listed)
  · intro c first
    have stopped := List.head?_dropWhile_not (avoids characters) text
    rw [first] at stopped
    dsimp only at stopped
    by_contra apart
    rw [avoids_iff.mpr apart] at stopped
    cases stopped

/-- A colon ends a scheme unless the text begins with it. -/
theorem schemePart_none {text : Bytes} (plain : ∀ c ∈ ascii "/?#", c ∉ text) :
    (schemePart text).1 = none ↔ (byte ':' ∈ text → text.head? = some (byte ':')) := by
  rcases takeWhile_avoids ":/?#" text with ⟨front, back, parts, taken, _, free, marked⟩
  have colon (c : UInt8) (first : back.head? = some c) : c = byte ':' := by
    rcases List.mem_cons.mp (marked c first) with rfl | later
    · rfl
    · have listed : c ∈ text := parts ▸ List.mem_append_right _ (List.mem_of_head? first)
      exact absurd listed (plain c later)
  have next : text[front.length]? = back.head? := by
    rw [parts, List.getElem?_append_right (Nat.le_refl _), Nat.sub_self, List.head?_eq_getElem?]
  have apart : byte ':' ∉ front := fun listed => free _ listed (by decide)
  unfold schemePart
  dsimp only
  rw [taken, next]
  split
  next named =>
    refine iff_of_false (fun none => by cases none) fun begins => ?_
    have first := begins (parts ▸ List.mem_append_right _ (List.mem_of_head? named.2))
    rw [parts, List.head?_append_of_ne_nil _ named.1] at first
    exact apart (List.mem_of_head? first)
  next unnamed =>
    refine iff_of_true rfl fun listed => ?_
    rw [parts, List.mem_append] at listed
    have inBack := listed.resolve_left apart
    rcases back with _ | ⟨c, back⟩
    · cases inBack
    · have here := colon c rfl
      have empty : front = [] := by
        by_contra filled
        exact unnamed ⟨filled, by rw [List.head?_cons, here]⟩
      rw [parts, empty, List.nil_append, List.head?_cons, here]

/-- A text without a slash has no authority. -/
theorem authorityPart_none {text : Bytes} (slashless : byte '/' ∉ text) :
    authorityPart text = (none, text) := by
  rw [authorityPart, if_neg]
  intro slashes
  rw [List.isPrefixOf_iff_prefix] at slashes
  exact slashless (slashes.subset (by decide))

theorem parse_slashless {text : Bytes} (slashless : byte '/' ∉ text) :
    (parse text).authority = none := by
  have behind : byte '/' ∉ (schemePart text).2 := by
    unfold schemePart
    dsimp only
    split
    · exact fun listed => slashless (List.mem_of_mem_drop listed)
    · exact slashless
  simp only [parse, authorityPart_none behind]

theorem schemePart_rest {text : Bytes} (unnamed : (schemePart text).1 = none) :
    (schemePart text).2 = text := by
  unfold schemePart at unnamed ⊢
  dsimp only at unnamed ⊢
  split at unnamed
  · cases unnamed
  next bare => rw [if_neg bare]

/-- The path of a reference without a scheme and a slash ends at the first mark. -/
theorem parse_relative {text : Bytes} (slashless : byte '/' ∉ text)
    (unnamed : (parse text).scheme = none) :
    (parse text).path = text.takeWhile (avoids "?#") ∧
      (parse text).query = (queryPart (text.dropWhile (avoids "?#"))).1 := by
  have rest := schemePart_rest unnamed
  constructor <;> simp only [parse, rest, authorityPart_none slashless]

theorem mem_of_mem_query {text query : Bytes}
    (found : (queryPart (text.dropWhile (avoids "?#"))).1 = some query) :
    ∀ c ∈ query, c ∈ text := by
  intro c listed
  unfold queryPart at found
  split at found
  · rw [← Option.some.inj found] at listed
    exact (List.dropWhile_sublist _).subset (List.mem_of_mem_tail (List.takeWhile_subset _ listed))
  · cases found

/-- A target is the path and what stands behind a question mark. -/
theorem target_parts (reference : Reference) : ∃ rest,
    reference.target = reference.path ++ rest ∧ (∀ c, rest.head? = some c → c = byte '?') ∧
      ∀ c ∈ rest, c = byte '?' ∨ ∃ query, reference.query = some query ∧ c ∈ query := by
  unfold target
  cases reference.query with
  | none =>
      refine ⟨[], rfl, ?_, ?_⟩
      · exact fun _ first => absurd first (by simp)
      · exact fun _ listed => absurd listed List.not_mem_nil
  | some query =>
      refine ⟨ascii "?" ++ query, rfl, fun c first => (Option.some.inj first).symm, ?_⟩
      intro c listed
      exact (List.mem_cons.mp listed).imp_right fun inside => ⟨query, rfl, inside⟩

/-- A name without marks is its own path. -/
theorem parse_name {name : Bytes} (plain : ∀ c ∈ ascii "/?#", c ∉ name)
    (unnamed : byte ':' ∈ name → name.head? = some (byte ':')) :
    parse name = { path := name } := by
  have slashless : byte '/' ∉ name := plain _ (by decide)
  have noScheme := (schemePart_none plain).mpr unnamed
  have free : ∀ c ∈ name, avoids "?#" c = true := by
    intro c listed
    rw [avoids_iff]
    exact fun mark => plain c (List.mem_cons_of_mem _ mark) listed
  have spent : name.dropWhile (avoids "?#") = [] := List.dropWhile_eq_nil_iff.mpr free
  have query : queryPart [] = (none, []) := rfl
  simp only [parse, noScheme, schemePart_rest noScheme, authorityPart_none slashless,
    List.takeWhile_eq_self_iff.mpr free, spent, query]
  rfl

/-- A reference without a scheme and an authority stays at the server of the page. -/
theorem resolve_relative {base reference : Reference} (unnamed : reference.scheme = none)
    (stays : reference.authority = none) :
    base.resolve reference =
      { scheme := base.scheme
        authority := base.authority
        path := base.resolvedPath reference
        query := if reference.path = [] then reference.query <|> base.query else reference.query
        fragment := reference.fragment } := by
  rw [resolve, unnamed, stays]
  rfl

example : resolve (ofTarget (ascii "a") (ascii "/b/c/d?q")) (parse (ascii "../g;x?y#s")) =
    { scheme := some (ascii "http"), authority := some (ascii "a"), path := ascii "/b/g;x"
      query := some (ascii "y"), fragment := some (ascii "s") } := by decide +kernel

/-! ## Merged paths -/

/-- The text of some segments, each with its slash. -/
def slashedText (segments : List Bytes) : Bytes := segments.flatMap (· ++ ascii "/")

theorem splitOn_slashedText {segments : List Bytes}
    (slashless : ∀ segment ∈ segments, byte '/' ∉ segment) (last : Bytes) :
    (slashedText segments ++ last).splitOn (byte '/') = segments ++ last.splitOn (byte '/') := by
  induction segments with
  | nil => rfl
  | cons segment rest ih =>
      rw [List.forall_mem_cons] at slashless
      have split : (segment ++ byte '/' :: (slashedText rest ++ last)).splitOn (byte '/') =
          segment.splitOn (byte '/') ++ (slashedText rest ++ last).splitOn (byte '/') :=
        List.splitOn_append_cons_self _ _
      rw [List.splitOn_eq_singleton slashless.1, ih slashless.2] at split
      rw [slashedText, List.flatMap_cons, List.append_assoc, List.append_assoc]
      exact split

/-- Every text is the text of some segments with their slashes, and a last segment. -/
theorem exists_slashedText (text : Bytes) : ∃ segments last, text = slashedText segments ++ last ∧
    (∀ segment ∈ segments, byte '/' ∉ segment) ∧ byte '/' ∉ last := by
  obtain ⟨segments, last, pieces⟩ := List.eq_nil_or_concat' (text.splitOn (byte '/'))
    |>.resolve_left (List.splitOn_ne_nil _ _)
  have slashless : ∀ segment ∈ segments ++ [last], byte '/' ∉ segment := by
    rw [← pieces]
    exact fun segment listed => not_mem_of_mem_splitOn listed
  rw [List.forall_mem_append, List.forall_mem_singleton] at slashless
  refine ⟨segments, last, ?_, slashless.1, slashless.2⟩
  have joined : [byte '/'].intercalate (segments ++ [last]) = text := by
    rw [← pieces, List.intercalate_splitOn]
  have whole := splitOn_slashedText slashless.1 last
  rw [List.splitOn_eq_singleton slashless.2] at whole
  rw [← joined, ← whole, List.intercalate_splitOn]

theorem mem_slashedText_of_subset {first second : List Bytes} (inside : first ⊆ second) :
    ∀ c ∈ slashedText first, c ∈ slashedText second := by
  intro c listed
  rcases List.mem_flatMap.mp listed with ⟨segment, inFirst, inSegment⟩
  exact List.mem_flatMap.mpr ⟨segment, inside inFirst, inSegment⟩

theorem slashedText_concat (segments : List Bytes) (last : Bytes) :
    slashedText (segments ++ [last]) = slashedText segments ++ last ++ ascii "/" := by
  rw [slashedText, List.flatMap_append, List.flatMap_singleton, List.append_assoc]
  rfl

theorem slashedText_ends (segments : List Bytes) :
    ∃ front, byte '/' :: slashedText segments = front ++ [byte '/'] := by
  rcases List.eq_nil_or_concat' segments with rfl | ⟨before, last, rfl⟩
  · exact ⟨[], rfl⟩
  · exact ⟨byte '/' :: (slashedText before ++ last), by rw [slashedText_concat]; rfl⟩

theorem directoryOf_slashedText (segments : List Bytes) {last : Bytes}
    (slashless : byte '/' ∉ last) :
    directoryOf (byte '/' :: (slashedText segments ++ last)) =
      byte '/' :: slashedText segments := by
  have behind : ∀ c ∈ last.reverse, (c != byte '/') = true := by
    intro c listed
    rw [bne_iff_ne]
    rintro rfl
    exact slashless (List.mem_reverse.mp listed)
  rcases slashedText_ends segments with ⟨front, ends⟩
  have parts : byte '/' :: (slashedText segments ++ last) = front ++ [byte '/'] ++ last := by
    rw [← ends, List.cons_append]
  rw [directoryOf, parts, List.rdropWhile, List.reverse_append, List.dropWhile_append_of_pos behind,
    ← List.rdropWhile, List.rdropWhile_concat_neg _ _ _ (by simp), ends]

theorem flatMap_slashedText (segments : List Bytes) (last : Bytes) :
    (segments ++ [last]).flatMap (byte '/' :: ·) = byte '/' :: (slashedText segments ++ last) := by
  induction segments with
  | nil => simp [slashedText]
  | cons segment rest ih =>
      rw [List.cons_append, List.flatMap_cons, ih, slashedText, slashedText, List.flatMap_cons]
      simp [ascii]

/-- Dot segments that only stand for the directory are left out. -/
theorem removeDotSegments_eq {segments : List Bytes} (noUp : ascii ".." ∉ segments)
    (done : List Bytes) (last : Bytes) :
    removeDotSegments done (segments ++ [last]) =
      removeDotSegments (done ++ segments.filter (· ≠ ascii ".")) [last] := by
  induction segments generalizing done with
  | nil => simp
  | cons segment rest ih =>
      rw [List.mem_cons, not_or] at noUp
      rw [List.cons_append, removeDotSegments, if_neg (Ne.symm noUp.1)]
      by_cases dot : segment = ascii "."
      · rw [if_pos dot, if_neg (by simp), ih noUp.2, List.filter_cons_of_neg (by simpa using dot)]
      · rw [if_neg dot, ih noUp.2, List.filter_cons_of_pos (by simpa using dot), List.append_assoc,
          List.singleton_append]

theorem removeDotSegments_name (done : List Bytes) {last : Bytes} (notDot : last ≠ ascii ".")
    (notDots : last ≠ ascii "..") : removeDotSegments done [last] = done ++ [last] := by
  rw [removeDotSegments, if_neg notDot, if_neg notDots, removeDotSegments]

/-- The path of a reference without a slash, which is merged with the directory of the page. -/
theorem removeDots_merged {segments : List Bytes}
    (slashless : ∀ segment ∈ segments, byte '/' ∉ segment)
    (noUp : ascii ".." ∉ segments) {last : Bytes} (slashlessLast : byte '/' ∉ last) :
    removeDots (byte '/' :: (slashedText segments ++ last)) =
      if last = ascii "." then byte '/' :: slashedText (segments.filter (· ≠ ascii "."))
      else if last = ascii ".." then
        byte '/' :: slashedText (segments.filter (· ≠ ascii ".")).dropLast
      else byte '/' :: (slashedText (segments.filter (· ≠ ascii ".")) ++ last) := by
  rw [removeDots, List.drop_one, List.tail_cons, splitOn_slashedText slashless,
    List.splitOn_eq_singleton slashlessLast, removeDotSegments_eq noUp, List.nil_append]
  split
  next dot =>
    rw [dot, removeDotSegments, if_pos rfl, if_pos List.isEmpty_nil, flatMap_slashedText,
      List.append_nil]
  next notDot =>
    split
    next dots =>
      rw [dots, removeDotSegments, if_neg (by decide), if_pos rfl, if_pos List.isEmpty_nil,
        flatMap_slashedText, List.append_nil]
    next notDots => rw [removeDotSegments_name _ notDot notDots, flatMap_slashedText]

end Reference

end IrcPlatform
